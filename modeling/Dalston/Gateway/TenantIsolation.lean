import Dalston.Gateway.Tenancy

/-!
# Tenant and ownership isolation

A principal may access the rows of its tenant, all of them as an admin and
otherwise those that its key created. What it observes is a function of these
rows, and its calls change no others, except that a link to a row it deletes is
cleared. The permission to delete a session is the permission to read it.

## Implementation notes

Every call is first brought into a form that looks up accessible rows only. The
two-run statement and the statements about what a call changes are read off
that form.
-/

namespace Dalston.Gateway

open Foundation Model

variable {D : Type}

/-- The rows a principal may access: those of its tenant, and for a non-admin those that its key
created. -/
def Principal.owns (principal : Principal) (tenantId : Uuid) (createdByKeyId : Option Uuid) : Bool :=
  tenantId = principal.tenantId && (principal.isAdmin || createdByKeyId = some principal.id)

def Principal.ownsJob (principal : Principal) (job : JobRow D) : Bool :=
  principal.owns job.tenantId job.createdByKeyId

def Principal.ownsSession (principal : Principal) (session : SessionRow D) : Bool :=
  principal.owns session.tenantId session.createdByKeyId

def Database.ownJob (db : Database D) (principal : Principal) (jobId : Uuid) : Option (JobRow D) :=
  (db.jobs.find? jobId).filter principal.ownsJob

def Database.ownSession (db : Database D) (principal : Principal) (sessionId : Uuid) :
    Option (SessionRow D) :=
  (db.sessions.find? sessionId).filter principal.ownsSession

/-- The task is one of a job that the principal may access. -/
def Database.OwnTask (db : Database D) (principal : Principal) (task : TaskRow D) : Prop :=
  ∃ job ∈ db.jobs.rows, principal.ownsJob job = true ∧ job.id = task.jobId

/-- The databases hold the same rows among those that the principal may access. -/
structure Agree (principal : Principal) (db db' : Database D) : Prop where
  jobs : db.jobs.Agree (fun job => principal.ownsJob job = true) db'.jobs
  tasks : db.tasks.Agree (db.OwnTask principal) db'.tasks
  sessions : db.sessions.Agree (fun session => principal.ownsSession session = true) db'.sessions

section Lookups

variable {principal : Principal} {db db' : Database D} {jobId : Uuid} {job : JobRow D}

theorem canAccessResource_eq (principal : Principal) (tenantId : Uuid) (createdBy : Option Uuid) :
    SecurityMode.apiKey.canAccessResource principal tenantId createdBy =
      principal.owns tenantId createdBy := by
  unfold SecurityMode.canAccessResource Principal.owns Principal.isAdmin
  by_cases htenant : tenantId = principal.tenantId
  · by_cases hadmin : Scope.admin ∈ principal.scopes
    · simp [htenant, hadmin]
    · simp [htenant, hadmin, eq_comm]
  · simp [htenant, Ne.symm htenant]

theorem ownJob_iff : db.ownJob principal jobId = some job ↔
    job ∈ db.jobs.rows ∧ job.id = jobId ∧ principal.ownsJob job = true := by
  rw [Database.ownJob, Option.filter_eq_some_iff, Table.find?_eq_some_iff, and_assoc]

theorem ownSession_iff {sessionId : Uuid} {session : SessionRow D} :
    db.ownSession principal sessionId = some session ↔
      session ∈ db.sessions.rows ∧ session.id = sessionId ∧
        principal.ownsSession session = true := by
  rw [Database.ownSession, Option.filter_eq_some_iff, Table.find?_eq_some_iff, and_assoc]

/-- A lookup within the tenant and a check of its result find the accessible job. -/
theorem filter_getJob (principal : Principal) (db : Database D) (jobId : Uuid) :
    (db.getJob jobId principal.tenantId).filter (JobsService.accessible .apiKey principal) =
      db.ownJob principal jobId := by
  unfold Database.getJob Database.ownJob
  rw [Option.filter_filter]
  congr 1
  funext job
  simp only [JobsService.accessible, canAccessResource_eq, Principal.ownsJob, Principal.owns]
  by_cases htenant : job.tenantId = principal.tenantId <;> simp [htenant]

theorem getJob_of_own (h : db.ownJob principal jobId = some job) :
    db.getJob jobId principal.tenantId = some job := by
  obtain ⟨hrow, hid, howns⟩ := ownJob_iff.mp h
  have htenant : job.tenantId = principal.tenantId := by
    simp only [Principal.ownsJob, Principal.owns, Bool.and_eq_true, decide_eq_true_eq] at howns
    exact howns.1
  rw [Database.getJob, Table.find?_eq_some_iff.mpr ⟨hrow, hid⟩]
  simp [htenant]

theorem Agree.ownJob (h : Agree principal db db') (jobId : Uuid) :
    db.ownJob principal jobId = db'.ownJob principal jobId :=
  h.jobs.find? jobId

theorem Agree.ownSession (h : Agree principal db db') (sessionId : Uuid) :
    db.ownSession principal sessionId = db'.ownSession principal sessionId :=
  h.sessions.find? sessionId

/-- Agreeing databases hold the same tasks of an accessible job. -/
theorem Agree.tasksOf (h : Agree principal db db') (hjob : db.ownJob principal jobId = some job) :
    db.tasksOf jobId = db'.tasksOf jobId := by
  obtain ⟨hrow, hid, howns⟩ := ownJob_iff.mp hjob
  apply h.tasks.select
  · intro task htask
    exact ⟨job, hrow, howns, hid.trans (of_decide_eq_true htask).symm⟩
  · intro task task' hposition
    exact hposition

end Lookups

/-- The permission a call asks for. -/
def AuthorizedCall.requires : AuthorizedCall → Permission
  | .getJob _ | .getJobWithTasks _ | .listJobs _ => .jobReadOwn
  | .updateDisplayName _ _ => .jobUpdateOwn
  | .cancelJob _ _ => .jobCancelOwn
  | .deleteJob _ => .jobDeleteOwn
  | .getSession _ | .listSessions _ | .deleteSession _ => .sessionReadOwn

/-- The job a call is to change. -/
def AuthorizedCall.changesJob : AuthorizedCall → Option Uuid
  | .updateDisplayName jobId _ | .cancelJob jobId _ | .deleteJob jobId => some jobId
  | _ => none

/-- The text by which a call names a session. -/
def AuthorizedCall.namesSession : AuthorizedCall → Option String
  | .getSession sessionId | .deleteSession sessionId => some sessionId
  | _ => none

/-- The key whose rows a list is confined to. -/
def Principal.listedKey (principal : Principal) : Option Uuid :=
  if principal.isAdmin then none else some principal.id

section Responses

variable {formats : Formats} {principal : Principal} {db : Database D} {jobId : Uuid}

theorem respond_denied {call : AuthorizedCall}
    (h : SecurityMode.apiKey.hasPermission principal call.requires = false) :
    call.respond formats .apiKey principal db =
      (.error (.authorization s!"Missing required permission: {call.requires.value}"
        call.requires), db) := by
  have hdenied : SecurityMode.apiKey.requirePermission principal call.requires =
      .error (.authorization s!"Missing required permission: {call.requires.value}"
        call.requires) := by
    simp only [SecurityMode.requirePermission, h]
    rfl
  cases call <;> simp only [AuthorizedCall.requires] at hdenied <;>
    simp only [AuthorizedCall.respond, AuthorizedCall.perform, JobsService.getJobAuthorized,
      JobsService.getJobWithTasksAuthorized, JobsService.listJobsAuthorized,
      JobsService.updateDisplayNameAuthorized, JobsService.cancelJobAuthorized,
      JobsService.deleteJobAuthorized, RealtimeSessionService.getSessionAuthorized,
      RealtimeSessionService.listSessionsAuthorized,
      RealtimeSessionService.deleteSessionAuthorized, hdenied] <;>
    rfl

theorem requirePermission_ok {permission : Permission}
    (h : SecurityMode.apiKey.hasPermission principal permission = true) :
    SecurityMode.apiKey.requirePermission principal permission = .ok () := by
  simp only [SecurityMode.requirePermission, h]
  rfl

theorem requireJob_none (h : db.ownJob principal jobId = none) :
    JobsService.requireJob .apiKey principal jobId db =
      .error (.resourceNotFound "job" (.uuid jobId)) := by
  rw [← filter_getJob] at h
  unfold JobsService.requireJob
  rw [service_get]
  cases hjob : db.getJob jobId principal.tenantId with
  | none => rfl
  | some job =>
      have hdenied : SecurityMode.apiKey.canAccessResource principal job.tenantId
          job.createdByKeyId = false := by
        simpa [hjob, JobsService.accessible] using h
      simp only [SecurityMode.requireResourceAccess, hdenied]
      rfl

theorem requireJob_some {job : JobRow D} (h : db.ownJob principal jobId = some job) :
    JobsService.requireJob .apiKey principal jobId db = .ok (job, db) := by
  have howns := (ownJob_iff.mp h).2.2
  unfold JobsService.requireJob
  rw [service_get, getJob_of_own h]
  simp only [SecurityMode.requireResourceAccess, canAccessResource_eq]
  rw [Principal.ownsJob] at howns
  simp only [howns]
  rfl

variable {job : JobRow D}

theorem respond_getJob (h : SecurityMode.apiKey.hasPermission principal .jobReadOwn = true) :
    (AuthorizedCall.getJob jobId).respond formats .apiKey principal db =
      (.ok (.job (db.ownJob principal jobId)), db) := by
  simp only [AuthorizedCall.respond, AuthorizedCall.perform, service_map]
  unfold JobsService.getJobAuthorized
  rw [requirePermission_ok h, service_ok, service_get, service_pure, filter_getJob]
  rfl

theorem respond_getJobWithTasks
    (h : SecurityMode.apiKey.hasPermission principal .jobReadOwn = true) :
    (AuthorizedCall.getJobWithTasks jobId).respond formats .apiKey principal db =
      (.ok (.jobWithTasks
        ((db.ownJob principal jobId).map fun job => (job, db.tasksOf jobId))), db) := by
  simp only [AuthorizedCall.respond, AuthorizedCall.perform, service_map]
  unfold JobsService.getJobWithTasksAuthorized
  rw [requirePermission_ok h, service_ok, service_get, service_pure, ← filter_getJob,
    Database.getJobWithTasks, Option.filter_map]
  rfl

/-- The jobs a list of the principal is drawn from. -/
def Database.listedJobs (db : Database D) (principal : Principal) (filter : JobFilter)
    (before : Option (Time × Uuid)) : List (JobRow D) :=
  db.jobs.select (filter.selects before principal.tenantId principal.listedKey false)
    JobRow.newestFirst

theorem respond_listJobs {filter : JobFilter} {before : Option (Time × Uuid)}
    (h : SecurityMode.apiKey.hasPermission principal .jobReadOwn = true)
    (hbefore : Formats.given formats.decodeJobCursor filter.cursor = .ok before) :
    (AuthorizedCall.listJobs filter).respond formats .apiKey principal db =
      (.ok (.jobs (page filter.limit (db.listedJobs principal filter before))), db) := by
  simp only [AuthorizedCall.respond, AuthorizedCall.perform, service_map]
  unfold JobsService.listJobsAuthorized JobsService.listJobs
  rw [requirePermission_ok h, service_ok, hbefore, service_ok, service_get]
  rfl

theorem respond_listJobs_error {filter : JobFilter} {e : ServiceError}
    (h : SecurityMode.apiKey.hasPermission principal .jobReadOwn = true)
    (hcursor : Formats.given formats.decodeJobCursor filter.cursor = .error e) :
    (AuthorizedCall.listJobs filter).respond formats .apiKey principal db = (.error e, db) := by
  simp only [AuthorizedCall.respond, AuthorizedCall.perform, service_map]
  unfold JobsService.listJobsAuthorized JobsService.listJobs
  rw [requirePermission_ok h, service_ok, hcursor, service_error]
  rfl

theorem respond_updateDisplayName {displayName : String}
    (h : SecurityMode.apiKey.hasPermission principal .jobUpdateOwn = true)
    (hjob : db.ownJob principal jobId = some job) :
    (AuthorizedCall.updateDisplayName jobId displayName).respond formats .apiKey principal db =
      (.ok (.renamed (job.displayName, { job with displayName })),
        db.putJob { job with displayName }) := by
  have hupdated : JobsService.updateDisplayName jobId displayName principal.tenantId db =
      .ok (some { job with displayName }, db.putJob { job with displayName }) := by
    unfold JobsService.updateDisplayName
    rw [service_get, getJob_of_own hjob]
    rfl
  simp only [AuthorizedCall.respond, AuthorizedCall.perform, service_map]
  unfold JobsService.updateDisplayNameAuthorized
  rw [requirePermission_ok h, service_ok, service_bind_ok (requireJob_some hjob),
    service_bind_ok hupdated]
  rfl

theorem respond_cancelJob {now : Time}
    (h : SecurityMode.apiKey.hasPermission principal .jobCancelOwn = true)
    (hjob : db.ownJob principal jobId = some job) (hstatus : cancellable job.status = true) :
    (AuthorizedCall.cancelJob jobId now).respond formats .apiKey principal db =
      (.ok (.cancelled (some (JobsService.cancelResult job (db.tasksOf jobId) now))),
        (db.cancelTasks jobId).putJob (JobsService.cancelResult job (db.tasksOf jobId) now).job) := by
  simp only [AuthorizedCall.respond, AuthorizedCall.perform, service_map]
  unfold JobsService.cancelJobAuthorized JobsService.cancelJob
  rw [requirePermission_ok h, service_ok, service_bind_ok (requireJob_some hjob),
    service_get]
  simp only [Database.getJobWithTasks, getJob_of_own hjob, Option.map_some, hstatus]
  rfl

theorem respond_cancelJob_error {now : Time}
    (h : SecurityMode.apiKey.hasPermission principal .jobCancelOwn = true)
    (hjob : db.ownJob principal jobId = some job) (hstatus : cancellable job.status = false) :
    (AuthorizedCall.cancelJob jobId now).respond formats .apiKey principal db =
      (.error (.value (s!"Cannot cancel job in '{statusText job.status}' state. " ++
        "Only pending or running jobs can be cancelled.")), db) := by
  simp only [AuthorizedCall.respond, AuthorizedCall.perform, service_map]
  unfold JobsService.cancelJobAuthorized JobsService.cancelJob
  rw [requirePermission_ok h, service_ok, service_bind_ok (requireJob_some hjob),
    service_get]
  simp only [Database.getJobWithTasks, getJob_of_own hjob, Option.map_some, hstatus]
  rfl

theorem respond_deleteJob
    (h : SecurityMode.apiKey.hasPermission principal .jobDeleteOwn = true)
    (hjob : db.ownJob principal jobId = some job) (hstatus : job.status.terminal = true) :
    (AuthorizedCall.deleteJob jobId).respond formats .apiKey principal db =
      (.ok (.job (some job)), (db.deleteTasks jobId).deleteJob jobId) := by
  simp only [AuthorizedCall.respond, AuthorizedCall.perform, service_map]
  unfold JobsService.deleteJobAuthorized JobsService.deleteJob
  rw [requirePermission_ok h, service_ok, service_bind_ok (requireJob_some hjob),
    service_get]
  simp only [getJob_of_own hjob, hstatus]
  rfl

theorem respond_deleteJob_error
    (h : SecurityMode.apiKey.hasPermission principal .jobDeleteOwn = true)
    (hjob : db.ownJob principal jobId = some job) (hstatus : job.status.terminal = false) :
    (AuthorizedCall.deleteJob jobId).respond formats .apiKey principal db =
      (.error (.value (s!"Cannot delete job in '{statusText job.status}' state. " ++
        "Only completed, failed, or cancelled jobs can be deleted.")), db) := by
  simp only [AuthorizedCall.respond, AuthorizedCall.perform, service_map]
  unfold JobsService.deleteJobAuthorized JobsService.deleteJob
  rw [requirePermission_ok h, service_ok, service_bind_ok (requireJob_some hjob),
    service_get]
  simp only [getJob_of_own hjob, hstatus]
  rfl

/-- A change is refused alike when its job does not exist and when it is not accessible. -/
theorem respond_jobNotFound {call : AuthorizedCall}
    (h : SecurityMode.apiKey.hasPermission principal call.requires = true)
    (hcall : call.changesJob = some jobId) (hjob : db.ownJob principal jobId = none) :
    call.respond formats .apiKey principal db =
      (.error (.resourceNotFound "job" (.uuid jobId)), db) := by
  have hallowed := requirePermission_ok h
  have hmissing := requireJob_none hjob
  cases call with
  | updateDisplayName id displayName =>
      obtain rfl := Option.some.inj hcall
      simp only [AuthorizedCall.requires] at hallowed
      simp only [AuthorizedCall.respond, AuthorizedCall.perform, service_map]
      unfold JobsService.updateDisplayNameAuthorized
      rw [hallowed, service_ok, service_bind_error hmissing]
      rfl
  | cancelJob id now =>
      obtain rfl := Option.some.inj hcall
      simp only [AuthorizedCall.requires] at hallowed
      simp only [AuthorizedCall.respond, AuthorizedCall.perform, service_map]
      unfold JobsService.cancelJobAuthorized
      rw [hallowed, service_ok, service_bind_error hmissing]
      rfl
  | deleteJob id =>
      obtain rfl := Option.some.inj hcall
      simp only [AuthorizedCall.requires] at hallowed
      simp only [AuthorizedCall.respond, AuthorizedCall.perform, service_map]
      unfold JobsService.deleteJobAuthorized
      rw [hallowed, service_ok, service_bind_error hmissing]
      rfl
  | _ => cases hcall

variable {sessionId : String} {sessionUuid : Uuid} {session : SessionRow D}

theorem getSession_eq (h : formats.parseSessionId sessionId = .ok sessionUuid) :
    RealtimeSessionService.getSession formats sessionId db =
      .ok (db.sessions.find? sessionUuid, db) := by
  unfold RealtimeSessionService.getSession
  rw [h]
  rfl

theorem getSession_error {e : ServiceError} (h : formats.parseSessionId sessionId = .error e) :
    RealtimeSessionService.getSession formats sessionId db = .error e := by
  unfold RealtimeSessionService.getSession
  rw [h]
  rfl

theorem accessible_session (session : SessionRow D) :
    RealtimeSessionService.accessible .apiKey principal session = principal.ownsSession session := by
  simp [RealtimeSessionService.accessible, canAccessResource_eq, Principal.ownsSession]

theorem respond_getSession (h : SecurityMode.apiKey.hasPermission principal .sessionReadOwn = true)
    (hid : formats.parseSessionId sessionId = .ok sessionUuid) :
    (AuthorizedCall.getSession sessionId).respond formats .apiKey principal db =
      (.ok (.session (db.ownSession principal sessionUuid)), db) := by
  have howns : RealtimeSessionService.accessible .apiKey principal = principal.ownsSession (D := D) :=
    funext accessible_session
  simp only [AuthorizedCall.respond, AuthorizedCall.perform, service_map]
  unfold RealtimeSessionService.getSessionAuthorized
  rw [requirePermission_ok h, service_ok, service_bind_ok (getSession_eq hid), howns]
  rfl

theorem respond_session_error {call : AuthorizedCall} {e : ServiceError}
    (h : SecurityMode.apiKey.hasPermission principal call.requires = true)
    (hcall : call.namesSession = some sessionId)
    (hid : formats.parseSessionId sessionId = .error e) :
    call.respond formats .apiKey principal db = (.error e, db) := by
  have hallowed := requirePermission_ok h
  have herror : RealtimeSessionService.getSession formats sessionId db = .error e :=
    getSession_error hid
  cases call with
  | getSession id =>
      obtain rfl := Option.some.inj hcall
      simp only [AuthorizedCall.requires] at hallowed
      simp only [AuthorizedCall.respond, AuthorizedCall.perform, service_map]
      unfold RealtimeSessionService.getSessionAuthorized
      rw [hallowed, service_ok, service_bind_error herror]
      rfl
  | deleteSession id =>
      obtain rfl := Option.some.inj hcall
      simp only [AuthorizedCall.requires] at hallowed
      simp only [AuthorizedCall.respond, AuthorizedCall.perform, service_map]
      unfold RealtimeSessionService.deleteSessionAuthorized
      rw [hallowed, service_ok, service_bind_error herror]
      rfl
  | _ => cases hcall

/-- The sessions a list of the principal is drawn from. -/
def Database.listedSessions (db : Database D) (principal : Principal) (filter : SessionFilter)
    (cursor : Option (Time × Uuid)) : List (SessionRow D) :=
  let selects := filter.selects cursor principal.tenantId principal.listedKey false
  match filter.sort with
  | .startedAsc => db.sessions.select selects SessionRow.oldestFirst
  | .startedDesc => db.sessions.select selects SessionRow.newestFirst

theorem respond_listSessions {filter : SessionFilter} {cursor : Option (Time × Uuid)}
    (h : SecurityMode.apiKey.hasPermission principal .sessionReadOwn = true)
    (hcursor : Formats.given formats.decodeSessionCursor filter.cursor = .ok cursor) :
    (AuthorizedCall.listSessions filter).respond formats .apiKey principal db =
      (.ok (.sessions (page filter.limit (db.listedSessions principal filter cursor))), db) := by
  simp only [AuthorizedCall.respond, AuthorizedCall.perform, service_map]
  unfold RealtimeSessionService.listSessionsAuthorized RealtimeSessionService.listSessions
  rw [requirePermission_ok h, service_ok, hcursor, service_ok, service_get]
  rfl

theorem respond_listSessions_error {filter : SessionFilter} {e : ServiceError}
    (h : SecurityMode.apiKey.hasPermission principal .sessionReadOwn = true)
    (hcursor : Formats.given formats.decodeSessionCursor filter.cursor = .error e) :
    (AuthorizedCall.listSessions filter).respond formats .apiKey principal db = (.error e, db) := by
  simp only [AuthorizedCall.respond, AuthorizedCall.perform, service_map]
  unfold RealtimeSessionService.listSessionsAuthorized RealtimeSessionService.listSessions
  rw [requirePermission_ok h, service_ok, hcursor, service_error]
  rfl

theorem respond_deleteSession_none
    (h : SecurityMode.apiKey.hasPermission principal .sessionReadOwn = true)
    (hid : formats.parseSessionId sessionId = .ok sessionUuid)
    (hsession : db.ownSession principal sessionUuid = none) :
    (AuthorizedCall.deleteSession sessionId).respond formats .apiKey principal db =
      (.error (.resourceNotFound "session" (.text sessionId)), db) := by
  simp only [AuthorizedCall.respond, AuthorizedCall.perform, service_map]
  unfold RealtimeSessionService.deleteSessionAuthorized
  rw [requirePermission_ok h, service_ok, service_bind_ok (getSession_eq hid)]
  cases hfind : db.sessions.find? sessionUuid with
  | none => rfl
  | some session =>
      have hdenied : principal.owns session.tenantId session.createdByKeyId = false := by
        simpa [Database.ownSession, hfind, Principal.ownsSession] using hsession
      simp only [SecurityMode.requireResourceAccess, canAccessResource_eq, hdenied]
      rfl

theorem ownSession_row (h : db.ownSession principal sessionUuid = some session) :
    session ∈ db.sessions.rows ∧ session.id = sessionUuid :=
  ⟨(ownSession_iff.mp h).1, (ownSession_iff.mp h).2.1⟩

theorem ownSession_tenant (h : db.ownSession principal sessionUuid = some session) :
    session.tenantId = principal.tenantId := by
  have howns := (ownSession_iff.mp h).2.2
  simp only [Principal.ownsSession, Principal.owns, Bool.and_eq_true, decide_eq_true_eq] at howns
  exact howns.1

theorem requireResourceAccess_own (h : db.ownSession principal sessionUuid = some session) :
    SecurityMode.apiKey.requireResourceAccess principal session.tenantId "session" (.text sessionId)
      session.createdByKeyId = .ok () := by
  have howns := (ownSession_iff.mp h).2.2
  rw [Principal.ownsSession] at howns
  simp only [SecurityMode.requireResourceAccess, canAccessResource_eq, howns]
  rfl

theorem respond_deleteSession_active
    (h : SecurityMode.apiKey.hasPermission principal .sessionReadOwn = true)
    (hid : formats.parseSessionId sessionId = .ok sessionUuid)
    (hsession : db.ownSession principal sessionUuid = some session)
    (hactive : session.status = "active") :
    (AuthorizedCall.deleteSession sessionId).respond formats .apiKey principal db =
      (.error (.value "Cannot delete active session"), db) := by
  have hrefused : RealtimeSessionService.deleteSession formats sessionId principal.tenantId db =
      .error (.value "Cannot delete active session") := by
    unfold RealtimeSessionService.deleteSession
    rw [hid, service_ok, service_bind_ok (getSession_eq hid),
      Table.find?_eq_some_iff.mpr (ownSession_row hsession)]
    simp [ownSession_tenant hsession, hactive]
  simp only [AuthorizedCall.respond, AuthorizedCall.perform, service_map]
  unfold RealtimeSessionService.deleteSessionAuthorized
  rw [requirePermission_ok h, service_ok, service_bind_ok (getSession_eq hid),
    Table.find?_eq_some_iff.mpr (ownSession_row hsession)]
  simp only [requireResourceAccess_own hsession]
  rw [service_ok, hrefused]
  rfl

theorem respond_deleteSession
    (h : SecurityMode.apiKey.hasPermission principal .sessionReadOwn = true)
    (hid : formats.parseSessionId sessionId = .ok sessionUuid)
    (hsession : db.ownSession principal sessionUuid = some session)
    (hended : session.status ≠ "active") :
    (AuthorizedCall.deleteSession sessionId).respond formats .apiKey principal db =
      (.ok (.deleted true), db.deleteSession sessionUuid) := by
  have hdeleted : RealtimeSessionService.deleteSession formats sessionId principal.tenantId db =
      .ok (true, db.deleteSession sessionUuid) := by
    unfold RealtimeSessionService.deleteSession
    rw [hid, service_ok, service_bind_ok (getSession_eq hid),
      Table.find?_eq_some_iff.mpr (ownSession_row hsession)]
    simp [ownSession_tenant hsession, hended]
    rfl
  simp only [AuthorizedCall.respond, AuthorizedCall.perform, service_map]
  unfold RealtimeSessionService.deleteSessionAuthorized
  rw [requirePermission_ok h, service_ok, service_bind_ok (getSession_eq hid),
    Table.find?_eq_some_iff.mpr (ownSession_row hsession)]
  simp only [requireResourceAccess_own hsession]
  rw [service_ok, hdeleted]
  rfl

end Responses

section TwoRuns

variable {formats : Formats} {principal : Principal} {db db' : Database D} {jobId : Uuid}
  {job : JobRow D}

/-- The row of an accessible job is the only one of its id, in both databases. -/
theorem Agree.eq_job (h : Agree principal db db') (hjob : db.ownJob principal jobId = some job)
    {row : JobRow D} (hrow : row ∈ db.jobs.rows ∨ row ∈ db'.jobs.rows) (hid : row.id = jobId) :
    row = job := by
  obtain ⟨hmem, hjobId, howns⟩ := ownJob_iff.mp hjob
  rcases hrow with hrow | hrow
  · exact Table.eq_of_key hrow hmem (hid.trans hjobId.symm)
  · exact Table.eq_of_key hrow ((h.jobs job howns).mp hmem) (hid.trans hjobId.symm)

theorem Agree.putJob (h : Agree principal db db') (hjob : db.ownJob principal jobId = some job)
    {job' : JobRow D} (hid : job'.id = jobId) :
    Agree principal (db.putJob job') (db'.putJob job') := by
  have howns := (ownJob_iff.mp hjob).2.2
  constructor
  case jobs =>
    apply h.jobs.image (fun _ => Database.mem_putJob) (fun _ => Database.mem_putJob)
    intro row hrow hseen
    by_cases hrowId : row.id = job'.id
    · rw [h.eq_job hjob hrow (hrowId.trans hid)]
      exact howns
    · simpa [hrowId] using hseen
  case tasks =>
    apply h.tasks.mono
    rintro task ⟨row', hrow', hseen, htask⟩
    obtain ⟨row, hrow, rfl⟩ := Database.mem_putJob.mp hrow'
    by_cases hrowId : row.id = job'.id
    · rw [if_pos hrowId] at htask
      refine ⟨row, hrow, ?_, hrowId.trans htask⟩
      rw [h.eq_job hjob (Or.inl hrow) (hrowId.trans hid)]
      exact howns
    · rw [if_neg hrowId] at hseen htask
      exact ⟨row, hrow, hseen, htask⟩
  case sessions => exact h.sessions

theorem Agree.cancelTasks (h : Agree principal db db') (jobId : Uuid) :
    Agree principal (db.cancelTasks jobId) (db'.cancelTasks jobId) := by
  constructor
  case jobs => exact h.jobs
  case tasks =>
    apply h.tasks.image (fun _ => Database.mem_cancelTasks) (fun _ => Database.mem_cancelTasks)
    rintro task _ ⟨row, hrow, howns, hid⟩
    refine ⟨row, hrow, howns, hid.trans ?_⟩
    by_cases htask : task.jobId = jobId <;> simp [htask]
  case sessions => exact h.sessions

/-- The tasks of an accessible job are the same in both databases. -/
theorem Agree.task_iff (h : Agree principal db db') (hjob : db.ownJob principal jobId = some job)
    {task : TaskRow D} (htask : task.jobId = jobId) :
    task ∈ db.tasks.rows ↔ task ∈ db'.tasks.rows := by
  obtain ⟨hrow, hid, howns⟩ := ownJob_iff.mp hjob
  exact h.tasks task ⟨job, hrow, howns, hid.trans htask.symm⟩

theorem Agree.hasTask (h : Agree principal db db') (hjob : db.ownJob principal jobId = some job) :
    db.hasTask jobId = db'.hasTask jobId := by
  funext id
  rw [Bool.eq_iff_iff]
  simp only [Database.hasTask, List.any_eq_true, Bool.and_eq_true, decide_eq_true_eq]
  constructor
  · rintro ⟨task, htask, hid, hof⟩
    exact ⟨task, (h.task_iff hjob hof).mp htask, hid, hof⟩
  · rintro ⟨task, htask, hid, hof⟩
    exact ⟨task, (h.task_iff hjob hof).mpr htask, hid, hof⟩

theorem Agree.deleteTasks (h : Agree principal db db')
    (hjob : db.ownJob principal jobId = some job) :
    Agree principal (db.deleteTasks jobId) (db'.deleteTasks jobId) := by
  constructor
  case jobs => exact h.jobs
  case tasks =>
    apply h.tasks.delete.image (fun _ => Database.mem_deleteTasks)
    · intro task
      rw [Database.mem_deleteTasks, h.hasTask hjob]
    · rintro task _ ⟨row, hrow, howns, hid⟩
      exact ⟨row, hrow, howns, hid⟩
  case sessions => exact h.sessions

theorem Agree.deleteJob (h : Agree principal db db') (jobId : Uuid) :
    Agree principal (db.deleteJob jobId) (db'.deleteJob jobId) := by
  constructor
  case jobs => exact h.jobs.delete
  case tasks =>
    apply h.tasks.mono
    rintro task ⟨row, hrow, howns, hid⟩
    exact ⟨row, (Database.mem_deleteJob.mp hrow).1, howns, hid⟩
  case sessions => exact h.sessions

theorem Agree.deleteSession (h : Agree principal db db') (sessionId : Uuid) :
    Agree principal (db.deleteSession sessionId) (db'.deleteSession sessionId) := by
  constructor
  case jobs => exact h.jobs
  case tasks => exact h.tasks
  case sessions =>
    apply h.sessions.delete.image (fun _ => Database.mem_deleteSession)
      (fun _ => Database.mem_deleteSession)
    intro session _ howns
    exact howns

end TwoRuns

/-- What a list of jobs asks of an accessible row. -/
def JobFilter.admits (filter : JobFilter) (before : Option (Time × Uuid)) (job : JobRow D) :
    Bool :=
  filter.status.all (job.status = ·) && filter.since.all (· ≤ job.createdAt) &&
    before.all fun position =>
      job.createdAt < position.1 || job.createdAt = position.1 && job.id < position.2

/-- What a list of sessions asks of an accessible row. -/
def SessionFilter.admits (filter : SessionFilter) (cursor : Option (Time × Uuid))
    (session : SessionRow D) : Bool :=
  filter.status.all (fun status => status = "" || session.status = status) &&
    filter.since.all (· ≤ session.startedAt) && filter.upTo.all (session.startedAt ≤ ·) &&
    cursor.all fun position => filter.sort.after position (session.startedAt, session.id)

theorem cancelResult_job_id (job : JobRow D) (tasks : List (TaskRow D)) (now : Time) :
    (JobsService.cancelResult job tasks now).job.id = job.id := by
  simp only [JobsService.cancelResult]
  split <;> rfl

theorem ownsJob_cancelResult (principal : Principal) (job : JobRow D) (tasks : List (TaskRow D))
    (now : Time) :
    principal.ownsJob (JobsService.cancelResult job tasks now).job = principal.ownsJob job := by
  simp only [JobsService.cancelResult]
  split <;> rfl

section Lists

variable {principal : Principal} {db db' : Database D}

theorem listedKey_all (principal : Principal) (createdByKeyId : Option Uuid) :
    (principal.listedKey.all fun keyId =>
      createdByKeyId = some keyId || false && createdByKeyId = none) =
      (principal.isAdmin || createdByKeyId = some principal.id) := by
  unfold Principal.listedKey
  cases principal.isAdmin <;> simp

theorem JobFilter.selects_eq (filter : JobFilter) (before : Option (Time × Uuid))
    (job : JobRow D) :
    filter.selects before principal.tenantId principal.listedKey false job =
      (principal.ownsJob job && filter.admits before job) := by
  unfold JobFilter.selects JobFilter.admits Principal.ownsJob Principal.owns
  rw [listedKey_all]
  ac_rfl

theorem SessionFilter.selects_eq (filter : SessionFilter) (cursor : Option (Time × Uuid))
    (session : SessionRow D) :
    filter.selects cursor principal.tenantId principal.listedKey false session =
      (principal.ownsSession session && filter.admits cursor session) := by
  unfold SessionFilter.selects SessionFilter.admits Principal.ownsSession Principal.owns
  rw [listedKey_all]
  ac_rfl

theorem mem_listedJobs {filter : JobFilter} {before : Option (Time × Uuid)} {job : JobRow D} :
    job ∈ db.listedJobs principal filter before ↔
      job ∈ db.jobs.rows ∧ principal.ownsJob job = true ∧ filter.admits before job = true := by
  rw [Database.listedJobs, Table.mem_select, JobFilter.selects_eq, Bool.and_eq_true]

theorem mem_listedSessions {filter : SessionFilter} {cursor : Option (Time × Uuid)}
    {session : SessionRow D} :
    session ∈ db.listedSessions principal filter cursor ↔
      session ∈ db.sessions.rows ∧ principal.ownsSession session = true ∧
        filter.admits cursor session = true := by
  unfold Database.listedSessions
  cases filter.sort <;>
    simp only [Table.mem_select, SessionFilter.selects_eq, Bool.and_eq_true]

theorem Agree.listedJobs (h : Agree principal db db') (filter : JobFilter)
    (before : Option (Time × Uuid)) :
    db.listedJobs principal filter before = db'.listedJobs principal filter before := by
  apply h.jobs.select
  · intro job hjob
    rw [JobFilter.selects_eq, Bool.and_eq_true] at hjob
    exact hjob.1
  · intro job job' hposition
    exact (Prod.mk.inj (toLex.injective (OrderDual.toDual.injective hposition))).2

theorem Agree.listedSessions (h : Agree principal db db') (filter : SessionFilter)
    (cursor : Option (Time × Uuid)) :
    db.listedSessions principal filter cursor = db'.listedSessions principal filter cursor := by
  have howns (session : SessionRow D)
      (hsession : filter.selects cursor principal.tenantId principal.listedKey false session = true) :
      principal.ownsSession session = true := by
    rw [SessionFilter.selects_eq, Bool.and_eq_true] at hsession
    exact hsession.1
  unfold Database.listedSessions
  cases filter.sort with
  | startedAsc =>
      apply h.sessions.select howns
      intro session session' hposition
      exact (Prod.mk.inj (toLex.injective hposition)).2
  | startedDesc =>
      apply h.sessions.select howns
      intro session session' hposition
      exact (Prod.mk.inj (toLex.injective (OrderDual.toDual.injective hposition))).2

end Lists

section TwoRuns

variable {formats : Formats} {principal : Principal} {db db' : Database D}

/-- A call answers the same on agreeing databases and leaves them in agreement. -/
theorem respond_agree (h : Agree principal db db') (call : AuthorizedCall) :
    (call.respond formats .apiKey principal db).1 =
        (call.respond formats .apiKey principal db').1 ∧
      Agree principal (call.respond formats .apiKey principal db).2
        (call.respond formats .apiKey principal db').2 := by
  cases hpermission : SecurityMode.apiKey.hasPermission principal call.requires with
  | false =>
      rw [respond_denied hpermission, respond_denied hpermission]
      exact ⟨rfl, h⟩
  | true =>
      cases call with
      | getJob jobId =>
          rw [respond_getJob hpermission, respond_getJob hpermission, h.ownJob]
          exact ⟨rfl, h⟩
      | getJobWithTasks jobId =>
          rw [respond_getJobWithTasks hpermission, respond_getJobWithTasks hpermission, ← h.ownJob]
          cases hjob : db.ownJob principal jobId with
          | none => exact ⟨rfl, h⟩
          | some job =>
              rw [Option.map_some, Option.map_some, h.tasksOf hjob]
              exact ⟨rfl, h⟩
      | listJobs filter =>
          cases hcursor : Formats.given formats.decodeJobCursor filter.cursor with
          | error e =>
              rw [respond_listJobs_error hpermission hcursor,
                respond_listJobs_error hpermission hcursor]
              exact ⟨rfl, h⟩
          | ok before =>
              rw [respond_listJobs hpermission hcursor, respond_listJobs hpermission hcursor,
                h.listedJobs]
              exact ⟨rfl, h⟩
      | updateDisplayName jobId displayName =>
          have hsame := h.ownJob jobId
          cases hjob : db.ownJob principal jobId with
          | none =>
              rw [respond_jobNotFound hpermission rfl hjob,
                respond_jobNotFound hpermission rfl (hsame ▸ hjob)]
              exact ⟨rfl, h⟩
          | some job =>
              rw [respond_updateDisplayName hpermission hjob,
                respond_updateDisplayName hpermission (hsame ▸ hjob)]
              exact ⟨rfl, h.putJob hjob (ownJob_iff.mp hjob).2.1⟩
      | cancelJob jobId now =>
          have hsame := h.ownJob jobId
          cases hjob : db.ownJob principal jobId with
          | none =>
              rw [respond_jobNotFound hpermission rfl hjob,
                respond_jobNotFound hpermission rfl (hsame ▸ hjob)]
              exact ⟨rfl, h⟩
          | some job =>
              cases hstatus : cancellable job.status with
              | false =>
                  rw [respond_cancelJob_error hpermission hjob hstatus,
                    respond_cancelJob_error hpermission (hsame ▸ hjob) hstatus]
                  exact ⟨rfl, h⟩
              | true =>
                  rw [respond_cancelJob hpermission hjob hstatus,
                    respond_cancelJob hpermission (hsame ▸ hjob) hstatus, h.tasksOf hjob]
                  refine ⟨rfl, (h.cancelTasks jobId).putJob hjob ?_⟩
                  rw [cancelResult_job_id]
                  exact (ownJob_iff.mp hjob).2.1
      | deleteJob jobId =>
          have hsame := h.ownJob jobId
          cases hjob : db.ownJob principal jobId with
          | none =>
              rw [respond_jobNotFound hpermission rfl hjob,
                respond_jobNotFound hpermission rfl (hsame ▸ hjob)]
              exact ⟨rfl, h⟩
          | some job =>
              cases hstatus : job.status.terminal with
              | false =>
                  rw [respond_deleteJob_error hpermission hjob hstatus,
                    respond_deleteJob_error hpermission (hsame ▸ hjob) hstatus]
                  exact ⟨rfl, h⟩
              | true =>
                  rw [respond_deleteJob hpermission hjob hstatus,
                    respond_deleteJob hpermission (hsame ▸ hjob) hstatus]
                  exact ⟨rfl, (h.deleteTasks hjob).deleteJob jobId⟩
      | getSession sessionId =>
          cases hid : formats.parseSessionId sessionId with
          | error e =>
              rw [respond_session_error hpermission rfl hid,
                respond_session_error hpermission rfl hid]
              exact ⟨rfl, h⟩
          | ok sessionUuid =>
              rw [respond_getSession hpermission hid, respond_getSession hpermission hid,
                h.ownSession]
              exact ⟨rfl, h⟩
      | listSessions filter =>
          cases hcursor : Formats.given formats.decodeSessionCursor filter.cursor with
          | error e =>
              rw [respond_listSessions_error hpermission hcursor,
                respond_listSessions_error hpermission hcursor]
              exact ⟨rfl, h⟩
          | ok cursor =>
              rw [respond_listSessions hpermission hcursor, respond_listSessions hpermission hcursor,
                h.listedSessions]
              exact ⟨rfl, h⟩
      | deleteSession sessionId =>
          cases hid : formats.parseSessionId sessionId with
          | error e =>
              rw [respond_session_error hpermission rfl hid,
                respond_session_error hpermission rfl hid]
              exact ⟨rfl, h⟩
          | ok sessionUuid =>
              have hsame := h.ownSession sessionUuid
              cases hsession : db.ownSession principal sessionUuid with
              | none =>
                  rw [respond_deleteSession_none hpermission hid hsession,
                    respond_deleteSession_none hpermission hid (hsame ▸ hsession)]
                  exact ⟨rfl, h⟩
              | some session =>
                  by_cases hactive : session.status = "active"
                  · rw [respond_deleteSession_active hpermission hid hsession hactive,
                      respond_deleteSession_active hpermission hid (hsame ▸ hsession) hactive]
                    exact ⟨rfl, h⟩
                  · rw [respond_deleteSession hpermission hid hsession hactive,
                      respond_deleteSession hpermission hid (hsame ▸ hsession) hactive]
                    exact ⟨rfl, h.deleteSession sessionUuid⟩

/-- What a principal observes depends on the rows it may access alone. -/
theorem observe_agree (h : Agree principal db db') (calls : List AuthorizedCall) :
    (observe formats .apiKey principal calls db).1 =
      (observe formats .apiKey principal calls db').1 := by
  induction calls generalizing db db' with
  | nil => rfl
  | cons call calls ih =>
      have hcall : (call.respond formats .apiKey principal db).1 =
            (call.respond formats .apiKey principal db').1 ∧
          Agree principal (call.respond formats .apiKey principal db).2
            (call.respond formats .apiKey principal db').2 := respond_agree h call
      obtain ⟨hresponse, hafter⟩ := hcall
      simp only [observe]
      rw [hresponse, ih hafter]

end TwoRuns

/-- What a call of the principal can do to the database. -/
inductive Change (principal : Principal) (db : Database D) : Database D → Prop
  | none : Change principal db db
  | putJob {job job' : JobRow D} (hjob : db.ownJob principal job'.id = some job)
      (howns : principal.ownsJob job' = true)
      (h : SecurityMode.apiKey.hasPermission principal .jobUpdateOwn = true) :
      Change principal db (db.putJob job')
  | cancel {job job' : JobRow D} (hjob : db.ownJob principal job'.id = some job)
      (howns : principal.ownsJob job' = true)
      (h : SecurityMode.apiKey.hasPermission principal .jobCancelOwn = true) :
      Change principal db ((db.cancelTasks job'.id).putJob job')
  | deleteJob {job : JobRow D} {jobId : Uuid} (hjob : db.ownJob principal jobId = some job)
      (h : SecurityMode.apiKey.hasPermission principal .jobDeleteOwn = true) :
      Change principal db ((db.deleteTasks jobId).deleteJob jobId)
  | deleteSession {session : SessionRow D} {sessionId : Uuid}
      (hsession : db.ownSession principal sessionId = some session)
      (hended : session.status ≠ "active") :
      Change principal db (db.deleteSession sessionId)

section Changes

variable {formats : Formats} {principal : Principal} {db mid after : Database D}

theorem change_respond (call : AuthorizedCall) :
    Change principal db (call.respond formats .apiKey principal db).2 := by
  cases hpermission : SecurityMode.apiKey.hasPermission principal call.requires with
  | false =>
      rw [respond_denied hpermission]
      exact .none
  | true =>
      cases call with
      | getJob jobId =>
          rw [respond_getJob hpermission]
          exact .none
      | getJobWithTasks jobId =>
          rw [respond_getJobWithTasks hpermission]
          exact .none
      | listJobs filter =>
          cases hcursor : Formats.given formats.decodeJobCursor filter.cursor with
          | error e =>
              rw [respond_listJobs_error hpermission hcursor]
              exact .none
          | ok before =>
              rw [respond_listJobs hpermission hcursor]
              exact .none
      | updateDisplayName jobId displayName =>
          cases hjob : db.ownJob principal jobId with
          | none =>
              rw [respond_jobNotFound hpermission rfl hjob]
              exact .none
          | some job =>
              obtain ⟨_, rfl, howns⟩ := ownJob_iff.mp hjob
              rw [respond_updateDisplayName hpermission hjob]
              exact .putJob hjob howns hpermission
      | cancelJob jobId now =>
          cases hjob : db.ownJob principal jobId with
          | none =>
              rw [respond_jobNotFound hpermission rfl hjob]
              exact .none
          | some job =>
              obtain ⟨_, hid, howns⟩ := ownJob_iff.mp hjob
              cases hstatus : cancellable job.status with
              | false =>
                  rw [respond_cancelJob_error hpermission hjob hstatus]
                  exact .none
              | true =>
                  rw [respond_cancelJob hpermission hjob hstatus]
                  have hsame := (cancelResult_job_id job (db.tasksOf jobId) now).trans hid
                  have hcancelled := (ownsJob_cancelResult principal job (db.tasksOf jobId) now).trans
                    howns
                  have hchange := Change.cancel (hsame.symm ▸ hjob) hcancelled hpermission
                  rwa [hsame] at hchange
      | deleteJob jobId =>
          cases hjob : db.ownJob principal jobId with
          | none =>
              rw [respond_jobNotFound hpermission rfl hjob]
              exact .none
          | some job =>
              cases hstatus : job.status.terminal with
              | false =>
                  rw [respond_deleteJob_error hpermission hjob hstatus]
                  exact .none
              | true =>
                  rw [respond_deleteJob hpermission hjob hstatus]
                  exact .deleteJob hjob hpermission
      | getSession sessionId =>
          cases hid : formats.parseSessionId sessionId with
          | error e =>
              rw [respond_session_error hpermission rfl hid]
              exact .none
          | ok sessionUuid =>
              rw [respond_getSession hpermission hid]
              exact .none
      | listSessions filter =>
          cases hcursor : Formats.given formats.decodeSessionCursor filter.cursor with
          | error e =>
              rw [respond_listSessions_error hpermission hcursor]
              exact .none
          | ok cursor =>
              rw [respond_listSessions hpermission hcursor]
              exact .none
      | deleteSession sessionId =>
          cases hid : formats.parseSessionId sessionId with
          | error e =>
              rw [respond_session_error hpermission rfl hid]
              exact .none
          | ok sessionUuid =>
              cases hsession : db.ownSession principal sessionUuid with
              | none =>
                  rw [respond_deleteSession_none hpermission hid hsession]
                  exact .none
              | some session =>
                  by_cases hactive : session.status = "active"
                  · rw [respond_deleteSession_active hpermission hid hsession hactive]
                    exact .none
                  · rw [respond_deleteSession hpermission hid hsession hactive]
                    exact .deleteSession hsession hactive

end Changes

/-- The rows that the principal may not access are as they were, but for the links to rows that
it has deleted. -/
structure Spares (principal : Principal) (db after : Database D) : Prop where
  jobs : ∀ job, principal.ownsJob job = false → (job ∈ after.jobs.rows ↔ job ∈ db.jobs.rows)
  tasks : ∀ task, ¬ db.OwnTask principal task → (task ∈ after.tasks.rows ↔
    ∃ task₀ ∈ db.tasks.rows, task₀.without (db.tasks.gone after.tasks) = task)
  sessions : ∀ session, principal.ownsSession session = false → (session ∈ after.sessions.rows ↔
    ∃ session₀ ∈ db.sessions.rows, session₀.without (db.sessions.gone after.sessions) = session)
  deliveries : ∀ delivery, delivery ∈ after.deliveries.rows ↔
    ∃ delivery₀ ∈ db.deliveries.rows, delivery₀.without (db.jobs.gone after.jobs) = delivery

/-- The principal has spared the rows of others, and has taken and made none. -/
structure Confined (principal : Principal) (db after : Database D) : Prop
    extends Spares principal db after where
  jobsWithin : after.jobs.Within db.jobs
  tasksWithin : after.tasks.Within db.tasks
  sessionsWithin : after.sessions.Within db.sessions
  ownTask : ∀ task, after.OwnTask principal task → db.OwnTask principal task

section Links

variable {gone gone' : Uuid → Bool}

theorem filter_none_gone (link : Option Uuid) : (link.filter fun _ => !false) = link := by
  cases link <;> rfl

@[simp] theorem TaskRow.without_false (task : TaskRow D) : task.without (fun _ => false) = task := by
  simp [without]

@[simp] theorem SessionRow.without_false (session : SessionRow D) :
    session.without (fun _ => false) = session := by
  simp only [without, filter_none_gone]

@[simp] theorem DeliveryRow.without_false (delivery : DeliveryRow D) :
    delivery.without (fun _ => false) = delivery := by
  simp only [without, filter_none_gone]

theorem TaskRow.without_without (task : TaskRow D) :
    (task.without gone).without gone' = task.without fun id => gone id || gone' id := by
  simp [without, List.filter_filter, Bool.and_comm]

theorem SessionRow.without_without (session : SessionRow D) :
    (session.without gone).without gone' = session.without fun id => gone id || gone' id := by
  simp [without, Option.filter_filter]

theorem DeliveryRow.without_without (delivery : DeliveryRow D) :
    (delivery.without gone).without gone' = delivery.without fun id => gone id || gone' id := by
  simp [without, Option.filter_filter]

end Links

section Confinement

variable {formats : Formats} {principal : Principal} {db mid after : Database D}

theorem Confined.refl (principal : Principal) (db : Database D) : Confined principal db db where
  jobs _ _ := Iff.rfl
  tasks task _ := by
    have hgone : db.tasks.gone db.tasks = fun _ => false := funext (Table.gone_self _)
    simp [hgone]
  sessions session _ := by
    have hgone : db.sessions.gone db.sessions = fun _ => false := funext (Table.gone_self _)
    simp [hgone]
  deliveries delivery := by
    have hgone : db.jobs.gone db.jobs = fun _ => false := funext (Table.gone_self _)
    simp [hgone]
  jobsWithin := .refl _
  tasksWithin := .refl _
  sessionsWithin := .refl _
  ownTask _ h := h

/-- What two steps leave of the rows of others. -/
theorem exists_mem_twice {R : Type} {t u : List R} {f g : R → R} {r : R}
    (hu : ∀ r', g r' = r → (r' ∈ u ↔ ∃ r₀ ∈ t, f r₀ = r')) :
    (∃ r' ∈ u, g r' = r) ↔ ∃ r₀ ∈ t, g (f r₀) = r := by
  constructor
  · rintro ⟨r', hr', hg⟩
    obtain ⟨r₀, hr₀, rfl⟩ := (hu r' hg).mp hr'
    exact ⟨r₀, hr₀, hg⟩
  · rintro ⟨r₀, hr₀, hg⟩
    exact ⟨f r₀, (hu (f r₀) hg).mpr ⟨r₀, hr₀, rfl⟩, hg⟩

theorem Confined.trans (h : Confined principal db mid) (h' : Confined principal mid after) :
    Confined principal db after := by
  have hjobs : db.jobs.gone after.jobs = fun id =>
      db.jobs.gone mid.jobs id || mid.jobs.gone after.jobs id :=
    funext (Table.gone_trans h.jobsWithin h'.jobsWithin)
  have htasks : db.tasks.gone after.tasks = fun id =>
      db.tasks.gone mid.tasks id || mid.tasks.gone after.tasks id :=
    funext (Table.gone_trans h.tasksWithin h'.tasksWithin)
  have hsessions : db.sessions.gone after.sessions = fun id =>
      db.sessions.gone mid.sessions id || mid.sessions.gone after.sessions id :=
    funext (Table.gone_trans h.sessionsWithin h'.sessionsWithin)
  refine ⟨⟨?jobs, ?tasks, ?sessions, ?deliveries⟩, h'.jobsWithin.trans h.jobsWithin,
    h'.tasksWithin.trans h.tasksWithin, h'.sessionsWithin.trans h.sessionsWithin,
    fun task hown => h.ownTask task (h'.ownTask task hown)⟩
  case jobs =>
    intro job hjob
    exact (h'.jobs job hjob).trans (h.jobs job hjob)
  case tasks =>
    intro task htask
    have hmid : ¬ mid.OwnTask principal task := fun hown => htask (h.ownTask task hown)
    rw [h'.tasks task hmid, htasks]
    simp only [← TaskRow.without_without]
    apply exists_mem_twice
    rintro task' rfl
    exact h.tasks task' htask
  case sessions =>
    intro session hsession
    rw [h'.sessions session hsession, hsessions]
    simp only [← SessionRow.without_without]
    apply exists_mem_twice
    rintro session' rfl
    exact h.sessions session' hsession
  case deliveries =>
    intro delivery
    rw [h'.deliveries delivery, hjobs]
    simp only [← DeliveryRow.without_without]
    apply exists_mem_twice
    intro delivery' _
    exact h.deliveries delivery'

variable {jobId : Uuid} {job job' : JobRow D}

theorem eq_of_ownJob (hjob : db.ownJob principal jobId = some job) {row : JobRow D}
    (hrow : row ∈ db.jobs.rows) (hid : row.id = jobId) : row = job := by
  obtain ⟨hmem, hjobId, _⟩ := ownJob_iff.mp hjob
  exact Table.eq_of_key hrow hmem (hid.trans hjobId.symm)

theorem keeps_putJob (db : Database D) (job : JobRow D) :
    Table.Keeps (fun _ => false) db.jobs (db.putJob job).jobs :=
  Table.keeps_image job.id_replace fun row => by simp [Database.mem_putJob]

theorem gone_of_keeps {R : Type} {key : R → Uuid} {t t' : Table key}
    (h : t.Keeps (fun _ => false) t') : t.gone t' = fun _ => false := by
  funext id
  rw [h.gone]
  simp

/-- Writing an accessible job back spares the rows of others. -/
theorem Confined.putJob (hjob : db.ownJob principal job'.id = some job)
    (howns : principal.ownsJob job' = true) : Confined principal db (db.putJob job') := by
  have hrow := (ownJob_iff.mp hjob).2.2
  refine ⟨⟨?jobs, (Confined.refl principal db).tasks, (Confined.refl principal db).sessions, ?deliveries⟩,
    (keeps_putJob db job').within, .refl _, .refl _, ?ownTask⟩
  case jobs =>
    intro row hother
    rw [Database.mem_putJob]
    constructor
    · rintro ⟨row₀, hrow₀, hsame⟩
      by_cases hid : row₀.id = job'.id
      · rw [if_pos hid] at hsame
        rw [← hsame, howns] at hother
        cases hother
      · rw [if_neg hid] at hsame
        exact hsame ▸ hrow₀
    · intro hmem
      refine ⟨row, hmem, if_neg fun hid => ?_⟩
      rw [eq_of_ownJob hjob hmem hid, hrow] at hother
      cases hother
  case deliveries =>
    intro delivery
    rw [gone_of_keeps (keeps_putJob db job')]
    simp [Database.putJob]
  case ownTask =>
    rintro task ⟨row', hrow', hseen, htask⟩
    obtain ⟨row₀, hrow₀, rfl⟩ := Database.mem_putJob.mp hrow'
    by_cases hid : row₀.id = job'.id
    · rw [if_pos hid] at htask
      refine ⟨row₀, hrow₀, ?_, hid.trans htask⟩
      rw [eq_of_ownJob hjob hrow₀ hid]
      exact hrow
    · rw [if_neg hid] at hseen htask
      exact ⟨row₀, hrow₀, hseen, htask⟩

theorem keeps_cancelTasks (db : Database D) (jobId : Uuid) :
    Table.Keeps (fun _ => false) db.tasks (db.cancelTasks jobId).tasks :=
  Table.keeps_image (TaskRow.id_cancelOf jobId) fun task => by simp [Database.mem_cancelTasks]

theorem Confined.cancelTasks (hjob : db.ownJob principal jobId = some job) :
    Confined principal db (db.cancelTasks jobId) := by
  obtain ⟨hrow, hid, howns⟩ := ownJob_iff.mp hjob
  refine ⟨⟨fun _ _ => Iff.rfl, ?tasks, (Confined.refl principal db).sessions,
    (Confined.refl principal db).deliveries⟩,
    .refl _, (keeps_cancelTasks db jobId).within, .refl _, fun _ hown => hown⟩
  case tasks =>
    intro task hother
    have hne : task.jobId ≠ jobId := fun hof => hother ⟨job, hrow, howns, hid.trans hof.symm⟩
    rw [gone_of_keeps (keeps_cancelTasks db jobId), Database.mem_cancelTasks]
    simp only [TaskRow.without_false, exists_eq_right]
    constructor
    · rintro ⟨task₀, htask₀, rfl⟩
      by_cases hof : task₀.jobId = jobId
      · simp [hof] at hne
      · rwa [if_neg hof]
    · intro hmem
      exact ⟨task, hmem, if_neg hne⟩

theorem keeps_deleteTasks (db : Database D) (jobId : Uuid) :
    Table.Keeps (fun task => task.jobId = jobId) db.tasks (db.deleteTasks jobId).tasks := by
  apply Table.keeps_image (f := TaskRow.without (db.hasTask jobId)) fun _ => rfl
  intro task
  rw [Database.mem_deleteTasks]
  simp [and_assoc]

theorem gone_deleteTasks (db : Database D) (jobId : Uuid) :
    db.tasks.gone (db.deleteTasks jobId).tasks = db.hasTask jobId :=
  funext (keeps_deleteTasks db jobId).gone

theorem Confined.deleteTasks (hjob : db.ownJob principal jobId = some job) :
    Confined principal db (db.deleteTasks jobId) := by
  obtain ⟨hrow, hid, howns⟩ := ownJob_iff.mp hjob
  refine ⟨⟨fun _ _ => Iff.rfl, ?tasks, (Confined.refl principal db).sessions,
    (Confined.refl principal db).deliveries⟩,
    .refl _, (keeps_deleteTasks db jobId).within, .refl _, fun _ hown => hown⟩
  case tasks =>
    intro task hother
    have hne : task.jobId ≠ jobId := fun hof => hother ⟨job, hrow, howns, hid.trans hof.symm⟩
    rw [gone_deleteTasks, Database.mem_deleteTasks]
    constructor
    · rintro ⟨task₀, htask₀, rfl⟩
      exact ⟨task₀, (Table.mem_delete.mp htask₀).1, rfl⟩
    · rintro ⟨task₀, htask₀, rfl⟩
      exact ⟨task₀, Table.mem_delete.mpr ⟨htask₀, decide_eq_false hne⟩, rfl⟩

theorem keeps_deleteJob (db : Database D) (jobId : Uuid) :
    Table.Keeps (fun job => job.id = jobId) db.jobs (db.deleteJob jobId).jobs := by
  apply Table.keeps_image (f := id) fun _ => rfl
  intro job
  rw [Database.mem_deleteJob]
  simp

theorem Confined.deleteJob (hjob : db.ownJob principal jobId = some job) :
    Confined principal db (db.deleteJob jobId) := by
  obtain ⟨hrow, hid, howns⟩ := ownJob_iff.mp hjob
  refine ⟨⟨?jobs, (Confined.refl principal db).tasks, (Confined.refl principal db).sessions,
    ?deliveries⟩, (keeps_deleteJob db jobId).within, .refl _, .refl _, ?ownTask⟩
  case jobs =>
    intro row hother
    rw [Database.mem_deleteJob]
    constructor
    · exact fun h => h.1
    · intro hmem
      refine ⟨hmem, fun hrowId => ?_⟩
      rw [eq_of_ownJob hjob hmem hrowId, howns] at hother
      cases hother
  case deliveries =>
    intro delivery
    have hgone : db.jobs.gone (db.deleteJob jobId).jobs = fun id => decide (id = jobId) := by
      funext id
      rw [(keeps_deleteJob db jobId).gone, Bool.eq_iff_iff]
      simp only [List.any_eq_true, Bool.and_eq_true, decide_eq_true_eq]
      constructor
      · rintro ⟨row, _, rfl, hrowId⟩
        exact hrowId
      · rintro rfl
        exact ⟨job, hrow, hid, hid⟩
    rw [hgone]
    exact Database.mem_deleteJob_deliveries
  case ownTask =>
    rintro task ⟨row, hrow', hseen, htask⟩
    exact ⟨row, (Database.mem_deleteJob.mp hrow').1, hseen, htask⟩

theorem keeps_deleteSession (db : Database D) (sessionId : Uuid) :
    Table.Keeps (fun session => session.id = sessionId) db.sessions
      (db.deleteSession sessionId).sessions := by
  apply Table.keeps_image (f := SessionRow.without (· = sessionId)) fun _ => rfl
  intro session
  rw [Database.mem_deleteSession]
  simp [and_assoc]

variable {sessionId : Uuid} {session : SessionRow D}

theorem gone_deleteSession (hsession : db.ownSession principal sessionId = some session) :
    db.sessions.gone (db.deleteSession sessionId).sessions = fun id => decide (id = sessionId) := by
  obtain ⟨hrow, hid, _⟩ := ownSession_iff.mp hsession
  funext id
  rw [(keeps_deleteSession db sessionId).gone, Bool.eq_iff_iff]
  simp only [List.any_eq_true, Bool.and_eq_true, decide_eq_true_eq]
  constructor
  · rintro ⟨row, _, rfl, hrowId⟩
    exact hrowId
  · rintro rfl
    exact ⟨session, hrow, hid, hid⟩

theorem Confined.deleteSession (hsession : db.ownSession principal sessionId = some session) :
    Confined principal db (db.deleteSession sessionId) := by
  obtain ⟨hrow, hid, howns⟩ := ownSession_iff.mp hsession
  refine ⟨⟨fun _ _ => Iff.rfl, (Confined.refl principal db).tasks, ?sessions,
    (Confined.refl principal db).deliveries⟩,
    .refl _, .refl _, (keeps_deleteSession db sessionId).within, fun _ hown => hown⟩
  case sessions =>
    intro row hother
    rw [gone_deleteSession hsession, Database.mem_deleteSession]
    constructor
    · rintro ⟨row₀, hrow₀, rfl⟩
      exact ⟨row₀, (Table.mem_delete.mp hrow₀).1, rfl⟩
    · rintro ⟨row₀, hrow₀, rfl⟩
      refine ⟨row₀, Table.mem_delete.mpr ⟨hrow₀, decide_eq_false fun hrowId => ?_⟩, rfl⟩
      have hsame : row₀ = session := Table.eq_of_key hrow₀ hrow (hrowId.trans hid.symm)
      have hown : principal.ownsSession (row₀.without fun id => decide (id = sessionId)) = true :=
        hsame ▸ howns
      rw [hown] at hother
      cases hother

theorem Change.confined (h : Change principal db after) : Confined principal db after := by
  cases h with
  | none => exact .refl principal db
  | putJob hjob howns => exact .putJob hjob howns
  | cancel hjob howns => exact (Confined.cancelTasks hjob).trans (.putJob hjob howns)
  | deleteJob hjob => exact (Confined.deleteTasks hjob).trans (.deleteJob hjob)
  | deleteSession hsession => exact .deleteSession hsession

/-- Whatever its calls, a principal spares the rows of others. -/
theorem confined_observe (formats : Formats) (principal : Principal) (calls : List AuthorizedCall)
    (db : Database D) : Confined principal db (observe formats .apiKey principal calls db).2 := by
  induction calls generalizing db with
  | nil => exact .refl principal db
  | cons call calls ih => exact (change_respond call).confined.trans (ih _)

end Confinement

/-- The permission allows no change of a row. -/
def Permission.reads : Permission → Bool
  | .jobRead | .jobReadOwn | .sessionRead | .sessionReadOwn | .webhookRead | .modelRead
  | .apiKeyList | .settingsRead | .auditRead => true
  | _ => false

/-- The scopes of the principal grant only reading. -/
def Principal.ReadsOnly (principal : Principal) : Prop :=
  ∀ permission, SecurityMode.apiKey.hasPermission principal permission = true →
    permission.reads = true

/-- All that has changed is that some ended sessions of the principal are gone. -/
structure SessionsDeleted (principal : Principal) (gone : Uuid → Bool) (db after : Database D) :
    Prop where
  jobs : after.jobs = db.jobs
  tasks : after.tasks = db.tasks
  deliveries : after.deliveries = db.deliveries
  sessions : ∀ session, session ∈ after.sessions.rows ↔
    ∃ session₀ ∈ db.sessions.rows, gone session₀.id = false ∧ session₀.without gone = session
  ended : ∀ id, gone id = true →
    ∃ session, db.ownSession principal id = some session ∧ session.status ≠ "active"

section Reading

variable {principal : Principal} {gone gone' : Uuid → Bool} {db mid after : Database D}

theorem SessionsDeleted.refl (principal : Principal) (db : Database D) :
    SessionsDeleted principal (fun _ => false) db db where
  jobs := rfl
  tasks := rfl
  deliveries := rfl
  sessions session := by simp
  ended id h := nomatch h

/-- A session that is left was there before, with the same status and the same owner. -/
theorem SessionsDeleted.ownSession (h : SessionsDeleted principal gone db mid) {id : Uuid}
    {session : SessionRow D} (hsession : mid.ownSession principal id = some session) :
    ∃ session₀, db.ownSession principal id = some session₀ ∧ session₀.status = session.status := by
  obtain ⟨hrow, hid, howns⟩ := ownSession_iff.mp hsession
  obtain ⟨session₀, hrow₀, _, rfl⟩ := (h.sessions session).mp hrow
  exact ⟨session₀, ownSession_iff.mpr ⟨hrow₀, hid, howns⟩, rfl⟩

theorem SessionsDeleted.trans (h : SessionsDeleted principal gone db mid)
    (h' : SessionsDeleted principal gone' mid after) :
    SessionsDeleted principal (fun id => gone id || gone' id) db after where
  jobs := h'.jobs.trans h.jobs
  tasks := h'.tasks.trans h.tasks
  deliveries := h'.deliveries.trans h.deliveries
  sessions session := by
    rw [h'.sessions]
    constructor
    · rintro ⟨session₁, hrow₁, hkept', rfl⟩
      obtain ⟨session₀, hrow₀, hkept, rfl⟩ := (h.sessions session₁).mp hrow₁
      refine ⟨session₀, hrow₀, ?_, (SessionRow.without_without session₀).symm⟩
      rw [hkept, Bool.false_or]
      exact hkept'
    · rintro ⟨session₀, hrow₀, hkept, rfl⟩
      rw [Bool.or_eq_false_iff] at hkept
      refine ⟨session₀.without gone, ?_, hkept.2, SessionRow.without_without session₀⟩
      exact (h.sessions _).mpr ⟨session₀, hrow₀, hkept.1, rfl⟩
  ended id hgone := by
    rw [Bool.or_eq_true] at hgone
    cases hgone with
    | inl hfirst => exact h.ended id hfirst
    | inr hthen =>
        obtain ⟨session, hsession, hended⟩ := h'.ended id hthen
        obtain ⟨session₀, hsession₀, hstatus⟩ := h.ownSession hsession
        exact ⟨session₀, hsession₀, hstatus ▸ hended⟩

theorem SessionsDeleted.deleteSession {sessionId : Uuid} {session : SessionRow D}
    (hsession : db.ownSession principal sessionId = some session)
    (hended : session.status ≠ "active") :
    SessionsDeleted principal (· = sessionId) db (db.deleteSession sessionId) where
  jobs := rfl
  tasks := rfl
  deliveries := rfl
  sessions row := by
    rw [Database.mem_deleteSession]
    simp only [Table.mem_delete, and_assoc]
  ended id hgone := by
    rw [decide_eq_true_eq] at hgone
    subst hgone
    exact ⟨session, hsession, hended⟩

/-- All that the permission to read lets a principal change are its ended sessions. -/
theorem Change.sessionsDeleted (hreads : principal.ReadsOnly) (h : Change principal db after) :
    ∃ gone, SessionsDeleted principal gone db after := by
  cases h with
  | none => exact ⟨_, .refl principal db⟩
  | putJob _ _ hpermission => exact nomatch hreads _ hpermission
  | cancel _ _ hpermission => exact nomatch hreads _ hpermission
  | deleteJob _ hpermission => exact nomatch hreads _ hpermission
  | deleteSession hsession hended => exact ⟨_, .deleteSession hsession hended⟩

theorem sessionsDeleted_observe (formats : Formats) (hreads : principal.ReadsOnly)
    (calls : List AuthorizedCall) (db : Database D) :
    ∃ gone, SessionsDeleted principal gone db
      (observe formats .apiKey principal calls db).2 := by
  induction calls generalizing db with
  | nil => exact ⟨_, .refl principal db⟩
  | cons call calls ih =>
      have hcall : Change principal db (call.respond formats .apiKey principal db).2 :=
        change_respond call
      obtain ⟨_, hfirst⟩ := hcall.sessionsDeleted hreads
      obtain ⟨_, hthen⟩ := ih (call.respond formats .apiKey principal db).2
      exact ⟨_, hfirst.trans hthen⟩

end Reading

section Listing

variable {formats : Formats} {principal : Principal} {db : Database D}

/-- A page holds rows that were found, and all of them when there are no more. -/
theorem mem_page {A : Type} {limit : Nat} {found rows : List A} {more : Bool} {a : A}
    (h : page limit found = (rows, more)) :
    (a ∈ rows → a ∈ found) ∧ (more = false → a ∈ found → a ∈ rows) := by
  simp only [page] at h
  split at h
  · obtain ⟨rfl, rfl⟩ := Prod.mk.inj h
    exact ⟨fun ha => List.mem_of_mem_take (List.mem_of_mem_take ha), fun hmore => nomatch hmore⟩
  · next hlimit =>
    obtain ⟨rfl, rfl⟩ := Prod.mk.inj h
    refine ⟨fun ha => List.mem_of_mem_take ha, fun _ ha => ?_⟩
    have hshort : found.length ≤ limit + 1 := by
      simp only [List.length_take] at hlimit
      omega
    rwa [List.take_of_length_le hshort]

/-- A limit that all rows keep to leaves nothing for a next page. -/
theorem page_of_length_le {A : Type} {limit : Nat} {found : List A} (h : found.length ≤ limit) :
    page limit found = (found, false) := by
  have htake : found.take (limit + 1) = found := List.take_of_length_le (by omega)
  simp only [page, htake]
  rw [if_neg (by omega)]

/-- The principal gets the job by its id. -/
def GetsJob (formats : Formats) (principal : Principal) (db : Database D) (job : JobRow D) :
    Prop :=
  (AuthorizedCall.getJob job.id).respond formats .apiKey principal db = (.ok (.job (some job)), db)

/-- The list answers with this page. -/
def ListsJobs (formats : Formats) (principal : Principal) (db : Database D) (filter : JobFilter)
    (rows : List (JobRow D)) (more : Bool) : Prop :=
  (AuthorizedCall.listJobs filter).respond formats .apiKey principal db =
    (.ok (.jobs (rows, more)), db)

/-- The session is got by the text of its id. -/
def GetsSession (formats : Formats) (principal : Principal) (db : Database D) (sessionId : String)
    (session : SessionRow D) : Prop :=
  (AuthorizedCall.getSession sessionId).respond formats .apiKey principal db =
    (.ok (.session (some session)), db)

def ListsSessions (formats : Formats) (principal : Principal) (db : Database D)
    (filter : SessionFilter) (rows : List (SessionRow D)) (more : Bool) : Prop :=
  (AuthorizedCall.listSessions filter).respond formats .apiKey principal db =
    (.ok (.sessions (rows, more)), db)

theorem getsJob_iff {job : JobRow D} : GetsJob formats principal db job ↔
    SecurityMode.apiKey.hasPermission principal .jobReadOwn = true ∧
      job ∈ db.jobs.rows ∧ principal.ownsJob job = true := by
  unfold GetsJob
  cases hpermission : SecurityMode.apiKey.hasPermission principal .jobReadOwn with
  | false =>
      rw [respond_denied hpermission]
      simp
  | true =>
      rw [respond_getJob hpermission]
      simp [ownJob_iff]

theorem listsJobs_iff {filter : JobFilter} {rows : List (JobRow D)} {more : Bool} :
    ListsJobs formats principal db filter rows more ↔
      SecurityMode.apiKey.hasPermission principal .jobReadOwn = true ∧
        ∃ before, Formats.given formats.decodeJobCursor filter.cursor = .ok before ∧
          page filter.limit (db.listedJobs principal filter before) = (rows, more) := by
  unfold ListsJobs
  cases hpermission : SecurityMode.apiKey.hasPermission principal .jobReadOwn with
  | false =>
      rw [respond_denied hpermission]
      simp
  | true =>
      cases hcursor : Formats.given formats.decodeJobCursor filter.cursor with
      | error e =>
          rw [respond_listJobs_error hpermission hcursor]
          simp
      | ok before =>
          rw [respond_listJobs hpermission hcursor]
          simp

theorem getsSession_iff {sessionId : String} {session : SessionRow D}
    (hid : formats.parseSessionId sessionId = .ok session.id) :
    GetsSession formats principal db sessionId session ↔
      SecurityMode.apiKey.hasPermission principal .sessionReadOwn = true ∧
        session ∈ db.sessions.rows ∧ principal.ownsSession session = true := by
  unfold GetsSession
  cases hpermission : SecurityMode.apiKey.hasPermission principal .sessionReadOwn with
  | false =>
      rw [respond_denied hpermission]
      simp
  | true =>
      rw [respond_getSession hpermission hid]
      simp [ownSession_iff]

theorem listsSessions_iff {filter : SessionFilter} {rows : List (SessionRow D)} {more : Bool} :
    ListsSessions formats principal db filter rows more ↔
      SecurityMode.apiKey.hasPermission principal .sessionReadOwn = true ∧
        ∃ cursor, Formats.given formats.decodeSessionCursor filter.cursor = .ok cursor ∧
          page filter.limit (db.listedSessions principal filter cursor) = (rows, more) := by
  unfold ListsSessions
  cases hpermission : SecurityMode.apiKey.hasPermission principal .sessionReadOwn with
  | false =>
      rw [respond_denied hpermission]
      simp
  | true =>
      cases hcursor : Formats.given formats.decodeSessionCursor filter.cursor with
      | error e =>
          rw [respond_listSessions_error hpermission hcursor]
          simp
      | ok cursor =>
          rw [respond_listSessions hpermission hcursor]
          simp

/-- A job is listed exactly when getting it by its id succeeds. -/
theorem getsJob_iff_listed {job : JobRow D} : GetsJob formats principal db job ↔
    ∃ filter rows more, ListsJobs formats principal db filter rows more ∧ job ∈ rows := by
  rw [getsJob_iff]
  constructor
  · rintro ⟨hpermission, hrow, howns⟩
    let filter : JobFilter := { limit := (db.listedJobs principal {} none).length }
    refine ⟨filter, db.listedJobs principal filter none, false, listsJobs_iff.mpr ?_, ?_⟩
    · exact ⟨hpermission, none, rfl, page_of_length_le le_rfl⟩
    · exact mem_listedJobs.mpr ⟨hrow, howns, rfl⟩
  · rintro ⟨filter, rows, more, hlists, hjob⟩
    obtain ⟨hpermission, before, _, hpage⟩ := listsJobs_iff.mp hlists
    obtain ⟨hrow, howns, _⟩ := mem_listedJobs.mp ((mem_page hpage).1 hjob)
    exact ⟨hpermission, hrow, howns⟩

/-- A list that ends holds every job that it asks for and that can be got. -/
theorem listed_of_getsJob {filter : JobFilter} {before : Option (Time × Uuid)}
    {rows : List (JobRow D)} {job : JobRow D}
    (hlists : ListsJobs formats principal db filter rows false)
    (hbefore : Formats.given formats.decodeJobCursor filter.cursor = .ok before)
    (hadmits : filter.admits before job = true) (hgets : GetsJob formats principal db job) :
    job ∈ rows := by
  obtain ⟨_, hrow, howns⟩ := getsJob_iff.mp hgets
  obtain ⟨_, before', hbefore', hpage⟩ := listsJobs_iff.mp hlists
  obtain rfl : before' = before := Except.ok.inj (hbefore'.symm.trans hbefore)
  exact (mem_page hpage).2 rfl (mem_listedJobs.mpr ⟨hrow, howns, hadmits⟩)

/-- A session is listed exactly when getting it by its id succeeds. -/
theorem getsSession_iff_listed {sessionId : String} {session : SessionRow D}
    (hid : formats.parseSessionId sessionId = .ok session.id) :
    GetsSession formats principal db sessionId session ↔
      ∃ filter rows more,
        ListsSessions formats principal db filter rows more ∧ session ∈ rows := by
  rw [getsSession_iff hid]
  constructor
  · rintro ⟨hpermission, hrow, howns⟩
    let filter : SessionFilter := { limit := (db.listedSessions principal {} none).length }
    refine ⟨filter, db.listedSessions principal filter none, false, listsSessions_iff.mpr ?_, ?_⟩
    · exact ⟨hpermission, none, rfl, page_of_length_le le_rfl⟩
    · exact mem_listedSessions.mpr ⟨hrow, howns, rfl⟩
  · rintro ⟨filter, rows, more, hlists, hsession⟩
    obtain ⟨hpermission, cursor, _, hpage⟩ := listsSessions_iff.mp hlists
    obtain ⟨hrow, howns, _⟩ := mem_listedSessions.mp ((mem_page hpage).1 hsession)
    exact ⟨hpermission, hrow, howns⟩

theorem listed_of_getsSession {filter : SessionFilter} {cursor : Option (Time × Uuid)}
    {rows : List (SessionRow D)} {sessionId : String} {session : SessionRow D}
    (hlists : ListsSessions formats principal db filter rows false)
    (hcursor : Formats.given formats.decodeSessionCursor filter.cursor = .ok cursor)
    (hadmits : filter.admits cursor session = true)
    (hid : formats.parseSessionId sessionId = .ok session.id)
    (hgets : GetsSession formats principal db sessionId session) : session ∈ rows := by
  obtain ⟨_, hrow, howns⟩ := (getsSession_iff hid).mp hgets
  obtain ⟨_, cursor', hcursor', hpage⟩ := listsSessions_iff.mp hlists
  obtain rfl : cursor' = cursor := Except.ok.inj (hcursor'.symm.trans hcursor)
  exact (mem_page hpage).2 rfl (mem_listedSessions.mpr ⟨hrow, howns, hadmits⟩)

end Listing

/-- What the authorised calls of a principal keep to, on databases with any other columns. -/
structure Isolated (D : Type) (formats : Formats) (principal : Principal) : Prop where
  /-- What it observes is the same on databases that agree on the rows it may access. -/
  noninterference : ∀ (calls : List AuthorizedCall) (db db' : Database D),
    Agree principal db db' →
      (observe formats .apiKey principal calls db).1 =
        (observe formats .apiKey principal calls db').1
  spares : ∀ (calls : List AuthorizedCall) (db : Database D),
    Spares principal db (observe formats .apiKey principal calls db).2
  jobListed : ∀ (db : Database D) (job : JobRow D), GetsJob formats principal db job ↔
    ∃ filter rows more, ListsJobs formats principal db filter rows more ∧ job ∈ rows
  /-- A list that ends holds every job that it asks for and that can be got. -/
  jobListComplete : ∀ (db : Database D) (filter : JobFilter) (before : Option (Time × Uuid))
    (rows : List (JobRow D)), ListsJobs formats principal db filter rows false →
    Formats.given formats.decodeJobCursor filter.cursor = .ok before →
    ∀ job, filter.admits before job = true → GetsJob formats principal db job → job ∈ rows
  sessionListed : ∀ (db : Database D) (sessionId : String) (session : SessionRow D),
    formats.parseSessionId sessionId = .ok session.id →
    (GetsSession formats principal db sessionId session ↔
      ∃ filter rows more,
        ListsSessions formats principal db filter rows more ∧ session ∈ rows)
  sessionListComplete : ∀ (db : Database D) (filter : SessionFilter)
    (cursor : Option (Time × Uuid)) (rows : List (SessionRow D)),
    ListsSessions formats principal db filter rows false →
    Formats.given formats.decodeSessionCursor filter.cursor = .ok cursor →
    ∀ sessionId session, filter.admits cursor session = true →
      formats.parseSessionId sessionId = .ok session.id →
      GetsSession formats principal db sessionId session → session ∈ rows
  /-- A principal that may only read deletes ended sessions of its own, and changes no more. -/
  readsOnly : principal.ReadsOnly → ∀ (calls : List AuthorizedCall) (db : Database D),
    ∃ gone, SessionsDeleted principal gone db (observe formats .apiKey principal calls db).2

theorem tenants_isolated (D : Type) (formats : Formats) (principal : Principal) :
    Isolated D formats principal where
  noninterference calls _ _ h := observe_agree h calls
  spares calls db := (confined_observe formats principal calls db).toSpares
  jobListed _ _ := getsJob_iff_listed
  jobListComplete _ _ _ _ hlists hbefore _ hadmits hgets :=
    listed_of_getsJob hlists hbefore hadmits hgets
  sessionListed _ _ _ hid := getsSession_iff_listed hid
  sessionListComplete _ _ _ _ hlists hcursor _ _ hadmits hid hgets :=
    listed_of_getsSession hlists hcursor hadmits hid hgets
  readsOnly hreads calls db := sessionsDeleted_observe formats hreads calls db

/-- A key of the scope `jobs:read`. -/
def reader : Principal := { id := 1, tenantId := 1, scopes := [.jobsRead] }

def readerSessionId : String := "00000000-0000-0000-0000-000000000007"

def plainFormats : Formats where
  uuid text := if text = readerSessionId then .ok 7 else .error "badly formed hexadecimal UUID string"
  fromisoformat _ := .error "Invalid isoformat string"

/-- The session that the key has created, when it has ended. -/
def endedSession : SessionRow Unit where
  id := 7
  tenantId := 1
  createdByKeyId := some 1
  status := "completed"
  startedAt := 0
  previousSessionId := none
  details := ()

/-- A session of another tenant that resumed it. -/
def resumingSession : SessionRow Unit where
  id := 8
  tenantId := 2
  createdByKeyId := some 2
  status := "completed"
  startedAt := 1
  previousSessionId := some 7
  details := ()

def twoSessions : Database Unit where
  jobs := { rows := [], unique := List.nodup_nil }
  tasks := { rows := [], unique := List.nodup_nil }
  sessions := { rows := [endedSession, resumingSession], unique := by decide }
  deliveries := { rows := [], unique := List.nodup_nil }

theorem reader_readsOnly : reader.ReadsOnly := by
  intro permission hgranted
  cases permission <;> first | rfl | exact absurd hgranted (by decide)

/-- The ids and links of the sessions once the reader has deleted its own. -/
def linksAfterDelete : List (Uuid × Option Uuid) :=
  (observe plainFormats .apiKey reader [.deleteSession readerSessionId] twoSessions).2.sessions.rows.map
    fun session => (session.id, session.previousSessionId)

/-- A key that may only read deletes a session, and with it a link of another tenant's. -/
theorem reader_deletes_session :
    reader.ReadsOnly ∧ reader.ownsSession resumingSession = false ∧
      (twoSessions.sessions.rows.map fun session => (session.id, session.previousSessionId)) =
        [(7, none), (8, some 7)] ∧
      linksAfterDelete = [(8, none)] :=
  ⟨reader_readsOnly, by decide, rfl, by decide +kernel⟩

end Dalston.Gateway
