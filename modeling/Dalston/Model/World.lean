import Dalston.Foundation.Program
import Dalston.Model.Rows

/-!
# The durable state of one job and the effects on it

A world holds what survives a crash of any process: the job's row and its
tasks' rows in the database, the Redis keys and streams that name the job or
its tasks, and its objects in the object store. An effect is one commit, one
Redis command or one object write of the source, and `apply` is its meaning.

## Implementation notes

The handlers change the world only through these effects. Every effect carries
plain data, so the order of a program's effects can be compared with the order
of the awaited calls of the source. `slotReleases` counts how often the
tenant's counter was decremented for this job; nothing reads it.
-/

namespace Dalston.Model

open Foundation

structure World where
  job : JobModel
  tasks : TaskTable
  stream : List StreamEntry
  nextMessageId : Nat
  retryKeys : List (Uuid × Nat)
  metadata : Uuid → Option TaskMetadata
  waitingTasks : List Uuid
  decremented : Bool
  concurrentJobs : Int
  slotReleases : Nat
  cancelledFlag : Bool
  enrichments : Dict EnrichmentStatus
  artifacts : Dict ArtifactReference
  published : List Event
  pending : List Message
  nextEventId : Nat
  requests : Uuid → Option TaskRequestData
  responses : Uuid → Option Config
  transcript : Option Config

/-- A retry of the task has been enqueued under the key. -/
def World.retryEnqueued (w : World) (id : Uuid) (retries : Nat) : Bool :=
  decide ((id, retries) ∈ w.retryKeys)

/-- `hset` of a task's metadata: the given fields are written, the others stay. -/
def TaskMetadata.update (old : Option TaskMetadata) (new : TaskMetadata) : TaskMetadata :=
  match old with
  | none => new
  | some m =>
      { new with
          waitingForEngine := new.waitingForEngine || m.waitingForEngine
          waitTimeoutS := new.waitTimeoutS <|> m.waitTimeoutS
          waitDeadlineAt := new.waitDeadlineAt <|> m.waitDeadlineAt
          blockedReason := m.blockedReason
          requestBindings := m.requestBindings
          resolvedArtifactIds := m.resolvedArtifactIds
          streamMessageId := m.streamMessageId }

inductive Effect
  /-- A query that changes nothing. -/
  | read
  /-- Commit of a job that failed because its tasks could not be built. -/
  | failJobOnBuild (error : ErrorText) (now : Time)
  /-- Commit of a job that failed because a task could not be queued. -/
  | failJobOnQueue (error : ErrorText) (now : Time)
  /-- Commit of a job that failed because of a failed task. -/
  | failJobOnTask (taskId : Uuid) (error : ErrorText) (now : Time)
  /-- Commit of the outcome of a job whose pipeline tasks are all terminal. -/
  | finaliseJob (status : JobStatus) (error : Option ErrorText) (now : Time)
  /-- Commit of a finished cancellation. -/
  | cancelJob (now : Time)
  /-- Commit of a cancellation request. -/
  | requestCancel (status : JobStatus) (taskIds : List Uuid) (now : Time)
  | setAudioDuration (duration : Rat)
  | setPiiResult (entities : Nat) (audio : Option Json)
  /-- Commit of a job's task rows together with the running status. -/
  | saveTasks (tasks : List TaskModel) (now : Time)
  /-- Commit of the enrichment rows of a completed job. -/
  | saveEnrichmentTasks (tasks : List TaskModel)
  | markReady (taskId : Uuid) (now : Option Time)
  /-- `UPDATE … WHERE status = 'pending'` to ready. -/
  | claimReady (taskId : Uuid) (now : Time)
  /-- `UPDATE … WHERE status = 'ready'` to running. -/
  | claimRunning (taskId : Uuid) (now : Time)
  | completeTask (taskId : Uuid) (now : Time)
  | retryTask (taskId : Uuid) (error : String) (now : Time)
  | skipTask (taskId : Uuid) (error : String) (now : Option Time)
  | failTask (taskId : Uuid) (error : ErrorText) (now : Option Time)
  | cancelTasks (taskIds : List Uuid)
  /-- Commit of the running tasks that no stream entry is pending for. -/
  | settleOrphans (completed failed : List Uuid) (now : Time)
  | setTaskMetadata (taskId : Uuid) (metadata : TaskMetadata)
  | addWaitingTask (taskId : Uuid)
  | clearWaitingTask (taskId : Uuid)
  | blockTask (taskId : Uuid) (reason : String)
  | putRequest (taskId : Uuid) (request : TaskRequestData)
  | setRequestMetadata (taskId : Uuid) (bindings : List Json) (resolved : Dict String)
  | setStreamMessageId (taskId : Uuid) (messageId : Nat)
  /-- `XADD` to an engine's stream. -/
  | addTask (queueId : String) (taskId : Uuid)
  /-- `SET NX` of the retry key and `XADD`, in one script. -/
  | addTaskOnce (queueId : String) (taskId : Uuid) (retries : Nat)
  /-- `XREADGROUP` of an entry, or a takeover of one from a dead engine. -/
  | claimEntry (messageId : Nat)
  | ackEntry (messageId : Nat)
  | deleteEntry (messageId : Nat)
  | putResponse (taskId : Uuid) (response : Config)
  | putArtifact (artifactId : String) (reference : ArtifactReference)
  | publish (event : Event)
  | ackEvent (messageId : Nat)
  /-- `SET NX` of the guard key of the slot release. -/
  | setDecremented
  | decrConcurrentJobs
  | resetConcurrentJobs
  | markJobCancelled
  | setEnrichment (stage : String) (status : EnrichmentStatus)
  | setEnrichments (stages : List String)
  | putTranscript (transcript : Config)

namespace Effect

/-- What an effect writes to a row of the `tasks` table. -/
def updateRow : Effect → TaskModel → TaskModel
  | requestCancel _ ids _, t => if t.id ∈ ids then { t with status := .cancelled } else t
  | markReady id now, t =>
      if t.id = id then { t with status := .ready, readyAt := now <|> t.readyAt } else t
  | claimReady id now, t =>
      if t.id = id ∧ t.status = .pending then { t with status := .ready, readyAt := some now }
      else t
  | claimRunning id now, t =>
      if t.id = id ∧ t.status = .ready then { t with status := .running, startedAt := some now }
      else t
  | completeTask id now, t =>
      if t.id = id then { t with status := .completed, error := none, completedAt := some now }
      else t
  | retryTask id error now, t =>
      if t.id = id then
        { t with
            retries := t.retries + 1, status := .ready, readyAt := some now
            error := some (.text error) }
      else t
  | skipTask id error now, t =>
      if t.id = id then
        { t with
            status := .skipped, error := some (.text error)
            completedAt := now <|> t.completedAt }
      else t
  | failTask id error now, t =>
      if t.id = id then
        { t with status := .failed, error := some error, completedAt := now <|> t.completedAt }
      else t
  | cancelTasks ids, t => if t.id ∈ ids then { t with status := .cancelled } else t
  | settleOrphans completed failed now, t =>
      if t.id ∈ completed then { t with status := .completed, completedAt := some now }
      else if t.id ∈ failed then
        { t with
            status := .failed, completedAt := some now
            error := some (.text "Task orphaned: not found in Redis PEL during reconciliation") }
      else t
  | _, t => t

theorem declared_updateRow (e : Effect) (t : TaskModel) :
    (e.updateRow t).declared = t.declared := by
  cases e <;> simp only [updateRow] <;> split_ifs <;> rfl

/-- What an effect writes to the job's row. -/
def updateJob : Effect → JobModel → JobModel
  | failJobOnBuild error now, job | failJobOnQueue error now, job
  | failJobOnTask _ error now, job =>
      { job with status := .failed, error := some error, completedAt := some now }
  | finaliseJob status error now, job =>
      { job with status := status, error := error, completedAt := some now }
  | cancelJob now, job => { job with status := .cancelled, completedAt := some now }
  | requestCancel status _ now, job =>
      { job with
          status := status
          completedAt := if status = .cancelled then some now else job.completedAt }
  | setAudioDuration duration, job => { job with audioDuration := some duration }
  | setPiiResult entities audio, job =>
      { job with
          piiEntitiesDetected := some entities
          piiRedactedAudioUri := audio <|> job.piiRedactedAudioUri }
  | saveTasks _ now, job => { job with status := .running, startedAt := some now }
  | _, job => job

/-- What an effect writes to an entry of an engine's stream. -/
def updateEntry : Effect → StreamEntry → StreamEntry
  | claimEntry messageId, entry =>
      if entry.messageId = messageId then { entry with state := .claimed } else entry
  | ackEntry messageId, entry | deleteEntry messageId, entry =>
      if entry.messageId = messageId then { entry with state := .acked } else entry
  | _, entry => entry

/-- The rows an effect adds to the table. -/
def newRows : Effect → World → List TaskModel
  | saveTasks tasks _, w | saveEnrichmentTasks tasks, w =>
      if w.tasks.Insertable tasks then tasks else []
  | _, _ => []

/-- The entries an effect adds to the engine streams. -/
def newEntries : Effect → World → List StreamEntry
  | addTask queueId id, w => [⟨w.nextMessageId, queueId, id, none, .unread⟩]
  | addTaskOnce queueId id retries, w =>
      if w.retryEnqueued id retries then []
      else [⟨w.nextMessageId, queueId, id, some retries, .unread⟩]
  | _, _ => []

/-- The rows after an effect that inserts none. -/
def updateTasks (e : Effect) (w : World) : World :=
  { w with tasks := w.tasks.modify e.updateRow e.declared_updateRow }

def modifyMetadata (id : Uuid) (f : TaskMetadata → TaskMetadata) (w : World) : World :=
  { w with metadata := Function.update w.metadata id ((w.metadata id).map f) }

/-- The meaning of each effect. -/
def apply (e : Effect) (w : World) : World :=
  match e with
  | read => w
  | failJobOnBuild .. | failJobOnQueue .. | failJobOnTask .. | finaliseJob .. | cancelJob ..
  | setAudioDuration .. | setPiiResult .. => { w with job := e.updateJob w.job }
  | requestCancel .. => { e.updateTasks w with job := e.updateJob w.job }
  | saveTasks tasks _ =>
      if h : w.tasks.Insertable tasks then
        { w with tasks := w.tasks.insert tasks h, job := e.updateJob w.job }
      else w
  | saveEnrichmentTasks tasks =>
      if h : w.tasks.Insertable tasks then { w with tasks := w.tasks.insert tasks h } else w
  | markReady .. | claimReady .. | claimRunning .. | completeTask .. | retryTask ..
  | skipTask .. | failTask .. | cancelTasks .. | settleOrphans .. => e.updateTasks w
  | setTaskMetadata id m =>
      { w with metadata :=
          Function.update w.metadata id (some (TaskMetadata.update (w.metadata id) m)) }
  | addWaitingTask id => { w with waitingTasks := w.waitingTasks ++ [id] }
  | clearWaitingTask id =>
      { modifyMetadata id (fun m =>
          { m with waitingForEngine := false, waitTimeoutS := none, waitDeadlineAt := none }) w with
        waitingTasks := w.waitingTasks.filter (· ≠ id) }
  | blockTask id reason => modifyMetadata id (fun m => { m with blockedReason := some reason }) w
  | putRequest id request =>
      { w with requests := Function.update w.requests id (some request) }
  | setRequestMetadata id bindings resolved =>
      modifyMetadata id (fun m =>
        { m with requestBindings := bindings, resolvedArtifactIds := resolved }) w
  | setStreamMessageId id messageId =>
      modifyMetadata id (fun m => { m with streamMessageId := some messageId }) w
  | addTask .. =>
      { w with
          stream := w.stream ++ e.newEntries w
          nextMessageId := w.nextMessageId + 1 }
  | addTaskOnce _ id retries =>
      if w.retryEnqueued id retries then w
      else
        { w with
            stream := w.stream ++ e.newEntries w
            nextMessageId := w.nextMessageId + 1
            retryKeys := w.retryKeys ++ [(id, retries)] }
  | claimEntry .. | ackEntry .. | deleteEntry .. =>
      { w with stream := w.stream.map e.updateEntry }
  | putResponse id response =>
      { w with responses := Function.update w.responses id (some response) }
  | putArtifact artifactId reference =>
      { w with artifacts := w.artifacts.set artifactId reference }
  | publish event =>
      { w with
          published := w.published ++ [event]
          pending := w.pending ++ [⟨w.nextEventId, event⟩]
          nextEventId := w.nextEventId + 1 }
  | ackEvent messageId => { w with pending := w.pending.filter fun m => m.id ≠ messageId }
  | setDecremented => { w with decremented := true }
  | decrConcurrentJobs =>
      { w with concurrentJobs := w.concurrentJobs - 1, slotReleases := w.slotReleases + 1 }
  | resetConcurrentJobs => { w with concurrentJobs := 0 }
  | markJobCancelled => { w with cancelledFlag := true }
  | setEnrichment stage status => { w with enrichments := w.enrichments.set stage status }
  | setEnrichments stages =>
      { w with enrichments := stages.foldl (fun d stage => d.set stage .pending) w.enrichments }
  | putTranscript transcript => { w with transcript := some transcript }

end Effect

instance : Interprets Effect World := ⟨Effect.apply⟩

namespace Effect

variable (e : Effect) (w : World)

/-- The rows after an effect are the updated old rows and the new ones. -/
theorem rows_apply :
    (e.apply w).tasks.rows = w.tasks.rows.map e.updateRow ++ e.newRows w := by
  have unchanged : w.tasks.rows = w.tasks.rows.map id := (List.map_id _).symm
  cases e with
  | saveTasks tasks now =>
      by_cases h : w.tasks.Insertable tasks <;>
        (simp [apply, newRows, h]; exact unchanged)
  | saveEnrichmentTasks tasks =>
      by_cases h : w.tasks.Insertable tasks <;>
        (simp [apply, newRows, h]; exact unchanged)
  | addTaskOnce queueId id retries =>
      by_cases h : w.retryEnqueued id retries <;>
        (simp [apply, newRows, h]; exact unchanged)
  | _ =>
      simp only [newRows, List.append_nil]
      first | rfl | exact unchanged

/-- The job's row after an effect; only an insert can leave its update out. -/
theorem job_apply :
    (e.apply w).job = e.updateJob w.job ∨
      ((∃ tasks now, e = saveTasks tasks now) ∧ e.apply w = w) := by
  cases e with
  | saveTasks tasks now =>
      by_cases h : w.tasks.Insertable tasks
      · exact Or.inl (by simp [apply, h])
      · exact Or.inr ⟨⟨tasks, now, rfl⟩, by simp [apply, h]⟩
  | saveEnrichmentTasks tasks =>
      by_cases h : w.tasks.Insertable tasks <;> simp [apply, updateJob, h]
  | addTaskOnce queueId id retries =>
      by_cases h : w.retryEnqueued id retries <;> simp [apply, updateJob, h]
  | _ => exact Or.inl rfl

end Effect

/-- A row of the table has the declared columns of the given one. -/
def Saved (s : World) (model : TaskModel) : Prop := ∃ t ∈ s.tasks.rows, t.declared = model.declared

/-- No effect deletes a row or changes its declared columns. -/
theorem Saved.apply {s : World} {model : TaskModel} (h : Saved s model) (e : Effect) :
    Saved (e.apply s) model := by
  obtain ⟨t, ht, hdecl⟩ := h
  refine ⟨e.updateRow t, ?_, (e.declared_updateRow t).trans hdecl⟩
  rw [e.rows_apply]
  exact List.mem_append_left _ (List.mem_map_of_mem ht)

/-- The rows an effect adds are saved. -/
theorem saved_of_newRows {s : World} {e : Effect} {model : TaskModel} (h : model ∈ e.newRows s) :
    Saved (e.apply s) model := by
  refine ⟨model, ?_, rfl⟩
  rw [e.rows_apply]
  exact List.mem_append_right _ h

/-- Every row of `s₀` is still there in `s`, with the columns it was declared with. -/
def Persists (s₀ s : World) : Prop := ∀ t₀ ∈ s₀.tasks.rows, Saved s t₀

theorem Persists.refl (s : World) : Persists s s := fun t ht => ⟨t, ht, rfl⟩

theorem Persists.apply {s₀ s : World} (h : Persists s₀ s) (e : Effect) :
    Persists s₀ (e.apply s) := fun t₀ ht₀ => Saved.apply (h t₀ ht₀) e

/-- The row that has the id of an older row is that row. -/
theorem Persists.declared_eq {s₀ s : World} (h : Persists s₀ s) {t₀ t : TaskModel}
    (ht₀ : t₀ ∈ s₀.tasks.rows) (ht : t ∈ s.tasks.rows) (hid : t.id = t₀.id) :
    t.declared = t₀.declared := by
  obtain ⟨u, hu, hdecl⟩ := h t₀ ht₀
  have hut : t = u :=
    TaskTable.eq_of_id ht hu (hid.trans (TaskModel.id_of_declared hdecl).symm)
  exact hut ▸ hdecl

/-- A program over the stores of one job. -/
abbrev Action (A : Type) := Program Effect World A

/-- Read the stores. -/
def getWorld : Action World := Program.perform .read

/-- `db.get(TaskModel, task_id)`. -/
def getTask (id : Uuid) : Action (Option TaskModel) := do
  return (← getWorld).tasks.get? id

/-- `select(TaskModel).where(TaskModel.job_id == job_id)`. -/
def selectTasks : Action (List TaskModel) := do
  return (← getWorld).tasks.rows

/-- Perform one effect for its update only. -/
def exec (e : Effect) : Action Unit := do
  let _ ← Program.perform e

section Rules

variable {G : World → Effect → Prop}

@[simp] theorem apply_eq (e : Effect) (w : World) : Foundation.apply e w = e.apply w := rfl

@[simp] theorem wp_getWorld {Q : World → World → Prop} (w : World) :
    getWorld.wp G Q w ↔ G w .read ∧ Q w w := Iff.rfl

@[simp] theorem wp_getTask {Q : Option TaskModel → World → Prop} (id : Uuid) (w : World) :
    (getTask id).wp G Q w ↔ G w .read ∧ Q (w.tasks.get? id) w := Iff.rfl

@[simp] theorem wp_selectTasks {Q : List TaskModel → World → Prop} (w : World) :
    selectTasks.wp G Q w ↔ G w .read ∧ Q w.tasks.rows w := Iff.rfl

@[simp] theorem wp_exec {Q : Unit → World → Prop} (e : Effect) (w : World) :
    (exec e).wp G Q w ↔ G w e ∧ Q () (e.apply w) := Iff.rfl

variable {K : Effect → Prop}

theorem only_exec {e : Effect} (h : K e) : (exec e).Only K :=
  Program.only_step h fun _ => Program.only_done _

theorem only_getWorld (h : K .read) : getWorld.Only K :=
  Program.only_step h fun _ => Program.only_done _

theorem only_getTask (h : K .read) (id : Uuid) : (getTask id).Only K :=
  Program.only_step h fun _ => Program.only_done _

end Rules

end Dalston.Model
