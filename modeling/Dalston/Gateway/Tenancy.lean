import Dalston.Gateway.Cursors
import Dalston.Gateway.Security

/-!
# Authorised job and session services

The jobs of all tenants are in one table, and so are their sessions. Every
authorised call checks a permission first, and then confines itself to the
rows that its principal may access: a lookup by the tenant and a check of the
row it finds, a selection by the tenant and by the creating key.

## Implementation notes

Foreign keys act as they are declared: with a job go the links to it from
webhook deliveries, with a task the dependencies on it, and with a session the
links from the sessions that resumed it. The columns that no service looks at
are one value of any type `D`, and so are those of a task, a session and a
delivery. Rows that are selected without an order come in the order of their
ids. The writing of audit records is left out.
-/

namespace Dalston.Gateway

open Foundation Model
open Cursors (decodeCursorWith)
open Orchestrator.Cleanup (parseSessionIdWith)

structure JobRow (D : Type) where
  id : Uuid
  tenantId : Uuid
  createdByKeyId : Option Uuid
  status : JobStatus
  displayName : String
  createdAt : Time
  completedAt : Option Time
  details : D

structure TaskRow (D : Type) where
  id : Uuid
  jobId : Uuid
  status : TaskStatus
  /-- The links of the table `task_dependencies`. -/
  dependencies : List Uuid
  details : D

structure SessionRow (D : Type) where
  id : Uuid
  tenantId : Uuid
  createdByKeyId : Option Uuid
  status : String
  startedAt : Time
  previousSessionId : Option Uuid
  details : D

/-- A row of `webhook_deliveries`. -/
structure DeliveryRow (D : Type) where
  id : Uuid
  jobId : Option Uuid
  details : D

structure Database (D : Type) where
  jobs : Table fun job : JobRow D => job.id
  tasks : Table fun task : TaskRow D => task.id
  sessions : Table fun session : SessionRow D => session.id
  deliveries : Table fun delivery : DeliveryRow D => delivery.id

variable {D : Type}

/-- The task once the tasks it depends on may be gone. -/
def TaskRow.without (gone : Uuid → Bool) (task : TaskRow D) : TaskRow D :=
  { task with dependencies := task.dependencies.filter fun id => !gone id }

def SessionRow.without (gone : Uuid → Bool) (session : SessionRow D) : SessionRow D :=
  { session with previousSessionId := session.previousSessionId.filter fun id => !gone id }

def DeliveryRow.without (gone : Uuid → Bool) (delivery : DeliveryRow D) : DeliveryRow D :=
  { delivery with jobId := delivery.jobId.filter fun id => !gone id }

/-- The task of a job whose cancellation is requested. -/
def TaskRow.cancel (task : TaskRow D) : TaskRow D :=
  if task.status = .pending ∨ task.status = .ready then { task with status := .cancelled } else task

@[simp] theorem TaskRow.id_cancel (task : TaskRow D) : task.cancel.id = task.id := by
  unfold cancel
  split <;> rfl

@[simp] theorem TaskRow.jobId_cancel (task : TaskRow D) : task.cancel.jobId = task.jobId := by
  unfold cancel
  split <;> rfl

theorem TaskRow.id_cancelOf (jobId : Uuid) (task : TaskRow D) :
    (if task.jobId = jobId then task.cancel else task).id = task.id := by
  by_cases h : task.jobId = jobId <;> simp [h]

theorem JobRow.id_replace (job row : JobRow D) :
    (if row.id = job.id then job else row).id = row.id := by
  by_cases h : row.id = job.id <;> simp [h]

namespace Database

/-- `WHERE id = … AND tenant_id = …`. -/
def getJob (db : Database D) (jobId : Uuid) (tenantId : Option Uuid) : Option (JobRow D) :=
  (db.jobs.find? jobId).filter fun job => tenantId.all (job.tenantId = ·)

def tasksOf (db : Database D) (jobId : Uuid) : List (TaskRow D) :=
  db.tasks.select (fun task => task.jobId = jobId) fun task => task.id

def getJobWithTasks (db : Database D) (jobId : Uuid) (tenantId : Option Uuid) :
    Option (JobRow D × List (TaskRow D)) :=
  (db.getJob jobId tenantId).map fun job => (job, db.tasksOf jobId)

/-- Whether the id is one of a task of the job. -/
def hasTask (db : Database D) (jobId : Uuid) (id : Uuid) : Bool :=
  db.tasks.rows.any fun task => task.id = id && task.jobId = jobId

/-- `DELETE FROM tasks WHERE job_id = …`. -/
def deleteTasks (db : Database D) (jobId : Uuid) : Database D :=
  { db with
      tasks := (db.tasks.delete fun task => task.jobId = jobId).update
        (TaskRow.without (db.hasTask jobId)) fun _ => rfl }

/-- `DELETE FROM jobs WHERE id = …`. -/
def deleteJob (db : Database D) (jobId : Uuid) : Database D :=
  { db with
      jobs := db.jobs.delete fun job => job.id = jobId
      deliveries := db.deliveries.update (DeliveryRow.without (· = jobId)) fun _ => rfl }

/-- `DELETE FROM realtime_sessions WHERE id = …`. -/
def deleteSession (db : Database D) (sessionId : Uuid) : Database D :=
  { db with
      sessions := (db.sessions.delete fun session => session.id = sessionId).update
        (SessionRow.without (· = sessionId)) fun _ => rfl }

/-- Write the row of a job back. -/
def putJob (db : Database D) (job : JobRow D) : Database D :=
  { db with
      jobs := db.jobs.update (fun row => if row.id = job.id then job else row) job.id_replace }

def cancelTasks (db : Database D) (jobId : Uuid) : Database D :=
  { db with
      tasks := db.tasks.update (fun task => if task.jobId = jobId then task.cancel else task)
        (TaskRow.id_cancelOf jobId) }

section Rows

variable {db : Database D} {id : Uuid}

theorem mem_putJob {job row : JobRow D} : row ∈ (db.putJob job).jobs.rows ↔
    ∃ row₀ ∈ db.jobs.rows, (if row₀.id = job.id then job else row₀) = row :=
  List.mem_map

theorem mem_cancelTasks {task : TaskRow D} : task ∈ (db.cancelTasks id).tasks.rows ↔
    ∃ task₀ ∈ db.tasks.rows, (if task₀.jobId = id then task₀.cancel else task₀) = task :=
  List.mem_map

theorem mem_deleteTasks {task : TaskRow D} : task ∈ (db.deleteTasks id).tasks.rows ↔
    ∃ task₀ ∈ (db.tasks.delete fun task => task.jobId = id).rows,
      task₀.without (db.hasTask id) = task :=
  List.mem_map

theorem mem_deleteJob {job : JobRow D} : job ∈ (db.deleteJob id).jobs.rows ↔
    job ∈ db.jobs.rows ∧ job.id ≠ id := by
  simp [deleteJob]

theorem mem_deleteJob_deliveries {delivery : DeliveryRow D} :
    delivery ∈ (db.deleteJob id).deliveries.rows ↔
      ∃ delivery₀ ∈ db.deliveries.rows, delivery₀.without (· = id) = delivery :=
  List.mem_map

theorem mem_deleteSession {session : SessionRow D} :
    session ∈ (db.deleteSession id).sessions.rows ↔
      ∃ session₀ ∈ (db.sessions.delete fun session => session.id = id).rows,
        session₀.without (· = id) = session :=
  List.mem_map

end Rows

end Database

/-- How ids and instants are read from texts; a text that cannot be read is refused with the
message of the `ValueError`. -/
structure Formats where
  uuid : String → Except String Uuid
  fromisoformat : String → Except String Time

namespace Formats

variable (formats : Formats)

/-- `UUID(text)`. -/
def readUuid (text : List Char) : Except ServiceError Uuid :=
  (formats.uuid (String.ofList text)).mapError .value

/-- `datetime.fromisoformat(text)`. -/
def readInstant (text : List Char) : Except ServiceError Time :=
  (formats.fromisoformat (String.ofList text)).mapError .value

def parseSessionId (sessionId : String) : Except ServiceError Uuid :=
  parseSessionIdWith (throw (.value s!"Invalid session ID: {sessionId}")) formats.readUuid sessionId

def decodeCursor : String → Except ServiceError (Time × Uuid) :=
  decodeCursorWith (.value "Invalid cursor format") formats.readInstant formats.readUuid

/-- `_decode_job_cursor`. -/
def decodeJobCursor : String → Except ServiceError (Time × Uuid) := formats.decodeCursor

/-- `_decode_session_cursor`. -/
def decodeSessionCursor : String → Except ServiceError (Time × Uuid) := formats.decodeCursor

/-- The position of a cursor that is given; an empty text is none. -/
def given (decode : String → Except ServiceError (Time × Uuid)) :
    Option String → Except ServiceError (Option (Time × Uuid))
  | none | some "" => return none
  | some cursor => do
      let position ← decode cursor
      return some position

end Formats

def statusText : JobStatus → String
  | .pending => "pending"
  | .running => "running"
  | .completed => "completed"
  | .failed => "failed"
  | .cancelling => "cancelling"
  | .cancelled => "cancelled"

/-- Membership in `CANCELLABLE_STATES`. -/
def cancellable : JobStatus → Bool
  | .pending | .running => true
  | .completed | .failed | .cancelling | .cancelled => false

/-- Result of a job cancellation request; the job comes with its tasks. -/
structure CancelResult (D : Type) where
  job : JobRow D
  tasks : List (TaskRow D)
  status : JobStatus
  message : String
  runningTaskCount : Nat

/-- A service call: it raises before it has written anything, or leaves a new database. -/
abbrev Service (D A : Type) := StateT (Database D) (Except ServiceError) A

section Steps

variable {A B : Type} (db : Database D)

@[simp] theorem service_get (next : Database D → Service D A) : (get >>= next) db = next db db := rfl

@[simp] theorem service_set (db' : Database D) (next : PUnit → Service D A) :
    (set db' >>= next) db = next ⟨⟩ db' := rfl

@[simp] theorem service_pure (a : A) : (pure a : Service D A) db = .ok (a, db) := rfl

@[simp] theorem service_throw (e : ServiceError) :
    (throw e : Service D A) db = .error e := rfl

@[simp] theorem service_ok (b : B) (next : B → Service D A) :
    ((liftM (.ok b : Except ServiceError B) : Service D B) >>= next) db = next b db := rfl

@[simp] theorem service_error (e : ServiceError) (next : B → Service D A) :
    ((liftM (.error e : Except ServiceError B) : Service D B) >>= next) db = .error e := rfl

@[simp] theorem service_map (f : B → A) (p : Service D B) :
    (f <$> p) db = (p db).map fun result => (f result.1, result.2) := by
  cases h : p db with
  | ok result => simp [Functor.map, StateT.map, h, bind, Except.bind, Except.map, pure, Except.pure]
  | error e => simp [Functor.map, StateT.map, h, bind, Except.bind, Except.map]

end Steps

theorem service_bind_ok {A B : Type} {p : Service D B} {b : B} {db db' : Database D}
    (h : p db = .ok (b, db')) (next : B → Service D A) : (p >>= next) db = next b db' := by
  simp only [bind, StateT.bind, h, Except.bind]

theorem service_bind_error {A B : Type} {p : Service D B} {e : ServiceError} {db : Database D}
    (h : p db = .error e) (next : B → Service D A) : (p >>= next) db = .error e := by
  simp only [bind, StateT.bind, h, Except.bind]

/-- `ORDER BY created_at DESC, id DESC`. -/
def JobRow.newestFirst (job : JobRow D) : (Time ×ₗ Uuid)ᵒᵈ :=
  OrderDual.toDual (toLex (job.createdAt, job.id))

/-- `ORDER BY started_at ASC, id ASC`. -/
def SessionRow.oldestFirst (session : SessionRow D) : Time ×ₗ Uuid :=
  toLex (session.startedAt, session.id)

/-- `ORDER BY started_at DESC, id DESC`. -/
def SessionRow.newestFirst (session : SessionRow D) : (Time ×ₗ Uuid)ᵒᵈ :=
  OrderDual.toDual session.oldestFirst

/-- A page of at most `limit` rows of those that were found, and whether there are more. -/
def page {A : Type} (limit : Nat) (found : List A) : List A × Bool :=
  let rows := found.take (limit + 1)
  if limit < rows.length then (rows.take limit, true) else (rows, false)

/-- What a list of jobs is asked for. -/
structure JobFilter where
  limit : Nat := 20
  cursor : Option String := none
  status : Option JobStatus := none
  since : Option Time := none

/-- The `WHERE` of a list of jobs. -/
def JobFilter.selects (filter : JobFilter) (before : Option (Time × Uuid)) (tenantId : Uuid)
    (createdByKeyId : Option Uuid) (includeUnowned : Bool) (job : JobRow D) : Bool :=
  job.tenantId = tenantId &&
    filter.status.all (job.status = ·) &&
    filter.since.all (· ≤ job.createdAt) &&
    (createdByKeyId.all fun keyId =>
      job.createdByKeyId = some keyId || includeUnowned && job.createdByKeyId = none) &&
    before.all fun position =>
      job.createdAt < position.1 || job.createdAt = position.1 && job.id < position.2

namespace JobsService

def listJobs (formats : Formats) (tenantId : Uuid) (filter : JobFilter)
    (createdByKeyId : Option Uuid) (includeUnowned : Bool) :
    Service D (List (JobRow D) × Bool) := do
  let before ← Formats.given formats.decodeJobCursor filter.cursor
  let db ← get
  let found := db.jobs.select (filter.selects before tenantId createdByKeyId includeUnowned)
    JobRow.newestFirst
  return page filter.limit found

def deleteJob (jobId : Uuid) (tenantId : Option Uuid) : Service D (Option (JobRow D)) := do
  let db ← get
  match db.getJob jobId tenantId with
  | none => return none
  | some job =>
      if !job.status.terminal then
        throw (.value (s!"Cannot delete job in '{statusText job.status}' state. " ++
          "Only completed, failed, or cancelled jobs can be deleted."))
      else do
        set ((db.deleteTasks jobId).deleteJob jobId)
        return some job

/-- The new status of a job: it waits for the tasks that are running. -/
def cancelResult (job : JobRow D) (tasks : List (TaskRow D)) (now : Time) : CancelResult D :=
  let runningCount := tasks.countP (·.status = .running)
  if 0 < runningCount then {
    job := { job with status := .cancelling }
    tasks := tasks.map TaskRow.cancel
    status := .cancelling
    message := s!"Cancellation requested. {runningCount} task(s) still running."
    runningTaskCount := runningCount }
  else {
    job := { job with status := .cancelled, completedAt := some now }
    tasks := tasks.map TaskRow.cancel
    status := .cancelled
    message := "Job cancelled."
    runningTaskCount := runningCount }

def cancelJob (jobId : Uuid) (now : Time) (tenantId : Option Uuid) :
    Service D (Option (CancelResult D)) := do
  let db ← get
  match db.getJobWithTasks jobId tenantId with
  | none => return none
  | some (job, tasks) =>
      if !cancellable job.status then
        throw (.value (s!"Cannot cancel job in '{statusText job.status}' state. " ++
          "Only pending or running jobs can be cancelled."))
      else do
        let result := cancelResult job tasks now
        set ((db.cancelTasks jobId).putJob result.job)
        return some result

def updateDisplayName (jobId : Uuid) (displayName : String) (tenantId : Option Uuid) :
    Service D (Option (JobRow D)) := do
  let db ← get
  match db.getJob jobId tenantId with
  | none => return none
  | some job => do
      set (db.putJob { job with displayName })
      return some { job with displayName }

section Authorized

variable (mode : SecurityMode) (principal : Principal)

/-- The job of an authorised lookup: one that is not accessible is not found. -/
def accessible (job : JobRow D) : Bool :=
  mode.canAccessResource principal job.tenantId job.createdByKeyId

def getJobAuthorized (jobId : Uuid) : Service D (Option (JobRow D)) := do
  mode.requirePermission principal .jobReadOwn
  let db ← get
  return (db.getJob jobId principal.tenantId).filter (accessible mode principal)

def getJobWithTasksAuthorized (jobId : Uuid) :
    Service D (Option (JobRow D × List (TaskRow D))) := do
  mode.requirePermission principal .jobReadOwn
  let db ← get
  return (db.getJobWithTasks jobId principal.tenantId).filter fun found =>
    accessible mode principal found.1

/-- The job that a change is for: one that is not accessible is not found. -/
def requireJob (jobId : Uuid) : Service D (JobRow D) := do
  let db ← get
  match db.getJob jobId principal.tenantId with
  | none => throw (.resourceNotFound "job" (.uuid jobId))
  | some job => do
      mode.requireResourceAccess principal job.tenantId "job" (.uuid jobId) job.createdByKeyId
      return job

def deleteJobAuthorized (jobId : Uuid) : Service D (Option (JobRow D)) := do
  mode.requirePermission principal .jobDeleteOwn
  let _ ← requireJob mode principal jobId
  deleteJob jobId principal.tenantId

def cancelJobAuthorized (jobId : Uuid) (now : Time) : Service D (Option (CancelResult D)) := do
  mode.requirePermission principal .jobCancelOwn
  let _ ← requireJob mode principal jobId
  cancelJob jobId now principal.tenantId

def updateDisplayNameAuthorized (jobId : Uuid) (displayName : String) :
    Service D (String × JobRow D) := do
  mode.requirePermission principal .jobUpdateOwn
  let job ← requireJob mode principal jobId
  let updated ← updateDisplayName jobId displayName principal.tenantId
  match updated with
  | none => throw .assertion
  | some updatedJob => return (job.displayName, updatedJob)

def listJobsAuthorized (formats : Formats) (filter : JobFilter) :
    Service D (List (JobRow D) × Bool) := do
  mode.requirePermission principal .jobReadOwn
  let createdByKeyId := if principal.isAdmin then none else some principal.id
  listJobs formats principal.tenantId filter createdByKeyId false

end Authorized

end JobsService

inductive SessionSort
  | startedDesc | startedAsc

/-- What a list of sessions is asked for. -/
structure SessionFilter where
  status : Option String := none
  since : Option Time := none
  /-- `until`. -/
  upTo : Option Time := none
  limit : Nat := 50
  cursor : Option String := none
  sort : SessionSort := .startedDesc

/-- The position comes after the cursor's in the order. -/
def SessionSort.after (sort : SessionSort) (cursor position : Time × Uuid) : Bool :=
  match sort with
  | .startedAsc => cursor.1 < position.1 || position.1 = cursor.1 && cursor.2 < position.2
  | .startedDesc => position.1 < cursor.1 || position.1 = cursor.1 && position.2 < cursor.2

/-- The `WHERE` of a list of sessions. -/
def SessionFilter.selects (filter : SessionFilter) (cursor : Option (Time × Uuid))
    (tenantId : Uuid) (createdByKeyId : Option Uuid) (includeUnowned : Bool)
    (session : SessionRow D) : Bool :=
  session.tenantId = tenantId &&
    filter.status.all (fun status => status = "" || session.status = status) &&
    filter.since.all (· ≤ session.startedAt) &&
    filter.upTo.all (session.startedAt ≤ ·) &&
    (createdByKeyId.all fun keyId =>
      session.createdByKeyId = some keyId || includeUnowned && session.createdByKeyId = none) &&
    cursor.all fun position => filter.sort.after position (session.startedAt, session.id)

namespace RealtimeSessionService

def getSession (formats : Formats) (sessionId : String) : Service D (Option (SessionRow D)) := do
  let sessionUuid ← formats.parseSessionId sessionId
  let db ← get
  return db.sessions.find? sessionUuid

def listSessions (formats : Formats) (tenantId : Uuid) (filter : SessionFilter)
    (createdByKeyId : Option Uuid) (includeUnowned : Bool) :
    Service D (List (SessionRow D) × Bool) := do
  let cursor ← Formats.given formats.decodeSessionCursor filter.cursor
  let db ← get
  let selects := filter.selects cursor tenantId createdByKeyId includeUnowned
  let found :=
    match filter.sort with
    | .startedAsc => db.sessions.select selects SessionRow.oldestFirst
    | .startedDesc => db.sessions.select selects SessionRow.newestFirst
  return page filter.limit found

def deleteSession (formats : Formats) (sessionId : String) (tenantId : Uuid) :
    Service D Bool := do
  let sessionUuid ← formats.parseSessionId sessionId
  let found ← getSession formats sessionId
  match found with
  | none => return false
  | some session =>
      if session.tenantId ≠ tenantId then return false
      else if session.status = "active" then throw (.value "Cannot delete active session")
      else do
        let db ← get
        set (db.deleteSession sessionUuid)
        return true

section Authorized

variable (formats : Formats) (mode : SecurityMode) (principal : Principal)

def accessible (session : SessionRow D) : Bool :=
  mode.canAccessResource principal session.tenantId session.createdByKeyId

def getSessionAuthorized (sessionId : String) : Service D (Option (SessionRow D)) := do
  mode.requirePermission principal .sessionReadOwn
  let found ← getSession formats sessionId
  return found.filter (accessible mode principal)

def listSessionsAuthorized (filter : SessionFilter) :
    Service D (List (SessionRow D) × Bool) := do
  mode.requirePermission principal .sessionReadOwn
  let createdByKeyId := if principal.isAdmin then none else some principal.id
  listSessions formats principal.tenantId filter createdByKeyId false

def deleteSessionAuthorized (sessionId : String) : Service D Bool := do
  -- the permission to read: there is none to delete
  mode.requirePermission principal .sessionReadOwn
  let found ← getSession formats sessionId
  match found with
  | none => throw (.resourceNotFound "session" (.text sessionId))
  | some session => do
      mode.requireResourceAccess principal session.tenantId "session" (.text sessionId)
        session.createdByKeyId
      deleteSession formats sessionId principal.tenantId

end Authorized

end RealtimeSessionService

/-- The authorised calls of a principal. -/
inductive AuthorizedCall
  | getJob (jobId : Uuid)
  | getJobWithTasks (jobId : Uuid)
  | listJobs (filter : JobFilter)
  | updateDisplayName (jobId : Uuid) (displayName : String)
  | cancelJob (jobId : Uuid) (now : Time)
  | deleteJob (jobId : Uuid)
  | getSession (sessionId : String)
  | listSessions (filter : SessionFilter)
  | deleteSession (sessionId : String)

/-- What a call returns. -/
inductive Answer (D : Type)
  | job (found : Option (JobRow D))
  | jobWithTasks (found : Option (JobRow D × List (TaskRow D)))
  | jobs (listed : List (JobRow D) × Bool)
  | renamed (result : String × JobRow D)
  | cancelled (result : Option (CancelResult D))
  | session (found : Option (SessionRow D))
  | sessions (listed : List (SessionRow D) × Bool)
  | deleted (done : Bool)

section Calls

variable (formats : Formats) (mode : SecurityMode) (principal : Principal)

def AuthorizedCall.perform : AuthorizedCall → Service D (Answer D)
  | .getJob jobId => .job <$> JobsService.getJobAuthorized mode principal jobId
  | .getJobWithTasks jobId =>
      .jobWithTasks <$> JobsService.getJobWithTasksAuthorized mode principal jobId
  | .listJobs filter => .jobs <$> JobsService.listJobsAuthorized mode principal formats filter
  | .updateDisplayName jobId displayName =>
      .renamed <$> JobsService.updateDisplayNameAuthorized mode principal jobId displayName
  | .cancelJob jobId now =>
      .cancelled <$> JobsService.cancelJobAuthorized mode principal jobId now
  | .deleteJob jobId => .job <$> JobsService.deleteJobAuthorized mode principal jobId
  | .getSession sessionId =>
      .session <$> RealtimeSessionService.getSessionAuthorized formats mode principal sessionId
  | .listSessions filter =>
      .sessions <$> RealtimeSessionService.listSessionsAuthorized formats mode principal filter
  | .deleteSession sessionId =>
      .deleted <$> RealtimeSessionService.deleteSessionAuthorized formats mode principal sessionId

/-- The answer or the error of a call, and the database after it. -/
def AuthorizedCall.respond (call : AuthorizedCall) (db : Database D) :
    Except ServiceError (Answer D) × Database D :=
  match call.perform formats mode principal db with
  | .ok (answer, db') => (.ok answer, db')
  | .error e => (.error e, db)

/-- What the principal observes of its calls, and the database after them. -/
def observe : List AuthorizedCall → Database D →
    List (Except ServiceError (Answer D)) × Database D
  | [], db => ([], db)
  | call :: calls, db =>
      let (response, db') := call.respond formats mode principal db
      let (responses, after) := observe calls db'
      (response :: responses, after)

end Calls

end Dalston.Gateway
