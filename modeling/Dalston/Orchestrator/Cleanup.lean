import Dalston.Foundation.Actions
import Dalston.Foundation.Lease
import Dalston.Foundation.Table
import Dalston.Model.Rows

/-!
# The cleanup worker

Jobs and realtime sessions end, and some time after their end a cleanup worker
deletes their artifacts and marks their row as purged. A worker sweeps: it
selects the owners of a kind whose purge time has come, and for each of them
takes a lock in Redis, deletes, marks the row and gives the lock back. The lock
has an expiry and is given back whoever holds it then.

## Implementation notes

Time is in milliseconds. A lease names the worker that took it, which the lock
itself does not. A worker stands at its next command; what it awaits can raise,
its task can be cancelled and its process can die. Keys of the bucket have the
form `jobs/{folder}/{name}` and `sessions/{folder}/{name}`. Every worker has an
audit service.
-/

namespace Dalston.Orchestrator.Cleanup

open Foundation Model

/-- What owns artifacts. -/
inductive OwnerKind
  | job | session
  deriving DecidableEq

inductive SessionStatus
  | active | completed | error | interrupted
  deriving DecidableEq

def SessionStatus.terminal : SessionStatus → Bool
  | .active => false
  | .completed | .error | .interrupted => true

abbrev OwnerStatus : OwnerKind → Type
  | .job => JobStatus
  | .session => SessionStatus

def OwnerStatus.terminal : {kind : OwnerKind} → OwnerStatus kind → Bool
  | .job, status => JobStatus.terminal status
  | .session, status => SessionStatus.terminal status

section Retention

def RETENTION_TRANSIENT : Int := 0

def RETENTION_PERMANENT : Int := -1

def RETENTION_MIN_DAYS : Int := 1

def RETENTION_MAX_DAYS : Int := 3650

def SECONDS_PER_DAY : Int := 86400

def retentionToTtlSeconds (retentionDays : Int) : Option Int :=
  if retentionDays = RETENTION_TRANSIENT then some 0
  else if retentionDays = RETENTION_PERMANENT then none
  else some (retentionDays * SECONDS_PER_DAY)

/-- `validate_retention` raises nothing. -/
def validRetention (retentionDays : Int) : Bool :=
  if retentionDays = RETENTION_TRANSIENT ∨ retentionDays = RETENTION_PERMANENT then true
  else if retentionDays < RETENTION_MIN_DAYS ∨ RETENTION_MAX_DAYS < retentionDays then false
  else true

/-- `_compute_purge_after`. -/
def computePurgeAfter (retention : Int) (endedAt : Nat) : Option Nat :=
  match retentionToTtlSeconds retention with
  | some ttlSeconds =>
      if ttlSeconds = 0 then some endedAt else some (endedAt + ttlSeconds.toNat * 1000)
  | none => none

end Retention

section Identifiers

/-- The last hexadecimal digits of a number, as many as are asked for. -/
def hexDigits : Nat → Nat → List Char
  | 0, _ => []
  | width + 1, n => hexDigits width (n / 16) ++ [Nat.digitChar (n % 16)]

/-- `str(UUID)`. -/
def uuidText (id : Uuid) : String :=
  let digits := hexDigits 32 id
  String.ofList (digits.take 8 ++ ['-'] ++ (digits.drop 8).take 4 ++ ['-'] ++
    (digits.drop 12).take 4 ++ ['-'] ++ (digits.drop 16).take 4 ++ ['-'] ++ digits.drop 20)

def hexValue? (c : Char) : Option Nat :=
  if '0' ≤ c ∧ c ≤ '9' then some (c.toNat - 48)
  else if 'a' ≤ c ∧ c ≤ 'f' then some (c.toNat - 87)
  else if 'A' ≤ c ∧ c ≤ 'F' then some (c.toNat - 55)
  else none

/-- `UUID(text)`: thirty-two digits, with hyphens anywhere. -/
def uuidOf? (text : List Char) : Option Uuid :=
  let digits := text.filter (· ≠ '-')
  if digits.length = 32 then
    digits.foldl (fun value c => value.bind fun v => (hexValue? c).map fun d => 16 * v + d) (some 0)
  else none

/-- `parse_session_id`, for how a UUID is read and what is answered for an invalid id. -/
def parseSessionIdWith {A : Type} (invalid : A) (uuid : List Char → A) (sessionId : String) : A :=
  if ['s', 'e', 's', 's', '_'] <+: sessionId.toList then
    let hexPart := sessionId.toList.drop 5
    if hexPart = [] then invalid else uuid (hexPart ++ List.replicate (32 - hexPart.length) '0')
  else uuid sessionId.toList

def parseSessionId : String → Option Uuid := parseSessionIdWith none uuidOf?

end Identifiers

/-- The columns of `jobs` and of `realtime_sessions` that tell when an owner is purged;
`endedAt` is `completed_at` and `ended_at`. -/
structure OwnerRow (kind : OwnerKind) where
  id : Uuid
  status : OwnerStatus kind
  retention : Int
  endedAt : Option Nat
  purgeAfter : Option Nat
  purgedAt : Option Nat

abbrev OwnerTable (kind : OwnerKind) := Table (@OwnerRow.id kind)

namespace OwnerTable

variable {kind : OwnerKind}

/-- `UPDATE … WHERE id = …`. -/
def modify (t : OwnerTable kind) (id : Uuid) (f : OwnerRow kind → OwnerRow kind)
    (hf : ∀ r, (f r).id = r.id) : OwnerTable kind :=
  t.update (fun r => if r.id = id then f r else r) fun r => by split <;> simp [hf]

/-- The query of a sweep. -/
def expired (t : OwnerTable kind) (now batchSize : Nat) : List (OwnerRow kind) :=
  (t.select (fun r => r.purgeAfter.any (· ≤ now) && r.purgedAt.isNone)
    fun r => r.purgeAfter.getD 0).take batchSize

end OwnerTable

/-- A key of the bucket. -/
structure ObjectKey where
  kind : OwnerKind
  folder : String
  name : String

def PURGE_LOCK_TTL_SECONDS : Nat := 300

/-- The expiry of a purge lock, in milliseconds. -/
def purgeLockTtl : Nat := PURGE_LOCK_TTL_SECONDS * 1000

/-- The objects of one page of a listing. -/
def PAGE_SIZE : Nat := 1000

/-- The owner at hand, and those of the batch that are still to come. -/
structure PurgeItem where
  kind : OwnerKind
  id : Uuid
  rest : List Uuid
  deriving DecidableEq

/-- How far the purge of an owner has come. -/
inductive PurgeStep
  /-- `list_objects_v2` for the page after the name. -/
  | listing (after : Option String)
  /-- `delete_objects` for a page, and whether there are more pages. -/
  | removing (names : List String) (more : Bool)
  /-- `db.get`. -/
  | loading
  | committing (purgedAt : Nat)
  /-- The answer to the commit is on its way. -/
  | committed
  | auditing
  deriving DecidableEq

/-- How the `try` block was left. -/
inductive PurgeOutcome
  | finished | failed | cancelled
  deriving DecidableEq

/-- What the task of a worker waits for. -/
inductive PurgeStage
  | stopped
  | asleep
  | selecting (kind : OwnerKind)
  /-- `SET NX EX` is on its way to Redis. -/
  | locking (item : PurgeItem)
  /-- The answer is on its way: when the lock was taken, if it was. -/
  | answered (item : PurgeItem) (takenAt : Option Nat)
  /-- The owner is being purged under the lock that was taken at the time. -/
  | inside (item : PurgeItem) (takenAt : Nat) (step : PurgeStep)
  /-- `DEL` is on its way. -/
  | releasing (item : PurgeItem) (takenAt : Nat) (outcome : PurgeOutcome)
  deriving DecidableEq

namespace PurgeStage

/-- The next owner of the batch, or what comes after the batch. -/
def proceed (kind : OwnerKind) : List Uuid → PurgeStage
  | id :: rest => .locking ⟨kind, id, rest⟩
  | [] =>
      match kind with
      | .job => .selecting .session
      | .session => .asleep

/-- What is awaited raises. An audit event that cannot be written raises nothing. -/
def raise : PurgeStage → PurgeStage
  | inside item takenAt .auditing => inside item takenAt .auditing
  | inside item takenAt _ => releasing item takenAt .failed
  | releasing _ _ .cancelled => stopped
  | selecting _ | locking _ | answered .. | releasing .. => asleep
  | stage => stage

/-- `stop` cancels the task. -/
def cancel : PurgeStage → PurgeStage
  | inside item takenAt _ => releasing item takenAt .cancelled
  | _ => stopped

/-- The lock has been given back. -/
def released (item : PurgeItem) : PurgeOutcome → PurgeStage
  | .cancelled => stopped
  | .finished | .failed => proceed item.kind item.rest

end PurgeStage

/-- The moves of a worker. -/
inductive PurgeMove
  | start
  | wake
  | select
  | set
  | answer
  | list
  /-- `delete_objects`, whose answer reports the names it has not deleted. -/
  | remove (kept : List String)
  | load
  | commit
  | reply
  | audit (written : Bool)
  | release
  | raise
  | cancel

structure CleanupState where
  now : Nat
  batchSize : Nat
  owners : (kind : OwnerKind) → OwnerTable kind
  objects : List ObjectKey
  locks : OwnerKind → Uuid → Option (Lease Nat)
  workers : Nat → PurgeStage
  /-- The resources of the `job.purged` events. -/
  audits : List Uuid

namespace CleanupState

def setStage (s : CleanupState) (w : Nat) (stage : PurgeStage) : CleanupState :=
  { s with workers := Function.update s.workers w stage }

def setOwners (s : CleanupState) (kind : OwnerKind) (t : OwnerTable kind) : CleanupState :=
  { s with owners := Function.update s.owners kind t }

def setLock (s : CleanupState) (kind : OwnerKind) (id : Uuid) (lock : Option (Lease Nat)) :
    CleanupState :=
  { s with locks := Function.update s.locks kind (Function.update (s.locks kind) id lock) }

/-- The lease of the owner that is in force. -/
def current (s : CleanupState) (kind : OwnerKind) (id : Uuid) : Option (Lease Nat) :=
  Lease.current (s.locks kind id) s.now

/-- The owners that a sweep selects. -/
def batch (s : CleanupState) (kind : OwnerKind) : List Uuid :=
  ((s.owners kind).expired s.now s.batchSize).map (·.id)

/-- The names under the prefix that `delete_artifacts` is given, in key order. -/
def namesUnder (s : CleanupState) (kind : OwnerKind) (id : Uuid) : List String :=
  ((s.objects.filter fun k => k.kind = kind ∧ k.folder = uuidText id).map (·.name)).insertionSort
    (· ≤ ·)

/-- The names of the next page, and all that follow. -/
def namesAfter (s : CleanupState) (kind : OwnerKind) (id : Uuid) (after : Option String) :
    List String :=
  (s.namesUnder kind id).filter fun name => after.all (· < name)

/-- `SET key now NX EX ttl`. -/
def acquire (s : CleanupState) (w : Nat) (item : PurgeItem) : CleanupState :=
  (s.setLock item.kind item.id
    (Lease.acquire (s.locks item.kind item.id) s.now purgeLockTtl w)).setStage w
      (.answered item (if (s.current item.kind item.id).isNone then some s.now else none))

/-- `DEL key`. -/
def release (s : CleanupState) (w : Nat) (item : PurgeItem) (outcome : PurgeOutcome) :
    CleanupState :=
  (s.setLock item.kind item.id none).setStage w (.released item outcome)

def list (s : CleanupState) (w : Nat) (item : PurgeItem) (takenAt : Nat) (after : Option String) :
    CleanupState :=
  let names := s.namesAfter item.kind item.id after
  if names = [] then s.setStage w (.inside item takenAt .loading)
  else s.setStage w (.inside item takenAt
    (.removing (names.take PAGE_SIZE) (decide (PAGE_SIZE < names.length))))

/-- What the answer reports as not deleted stays, and is not looked at. -/
def remove (s : CleanupState) (w : Nat) (item : PurgeItem) (takenAt : Nat) (names : List String)
    (more : Bool) (kept : List String) : CleanupState :=
  { s with objects := s.objects.filter fun k =>
      ¬(k.kind = item.kind ∧ k.folder = uuidText item.id ∧ k.name ∈ names ∧ k.name ∉ kept) }.setStage
    w (.inside item takenAt (if more then .listing names.getLast? else .loading))

def load (s : CleanupState) (w : Nat) (item : PurgeItem) (takenAt : Nat) : CleanupState :=
  match (s.owners item.kind).find? item.id with
  | some row =>
      if row.purgedAt.isNone then s.setStage w (.inside item takenAt (.committing s.now))
      else s.setStage w (.releasing item takenAt .finished)
  | none => s.setStage w (.releasing item takenAt .finished)

def markPurged {kind : OwnerKind} (t : OwnerTable kind) (id : Uuid) (purgedAt : Nat) :
    OwnerTable kind :=
  OwnerTable.modify t id (fun r => { r with purgedAt := some purgedAt }) fun _ => rfl

def commit (s : CleanupState) (w : Nat) (item : PurgeItem) (takenAt purgedAt : Nat) :
    CleanupState :=
  (s.setOwners item.kind (markPurged (s.owners item.kind) item.id purgedAt)).setStage w
    (.inside item takenAt .committed)

/-- Only the purge of a job is audited. -/
def reply (s : CleanupState) (w : Nat) (item : PurgeItem) (takenAt : Nat) : CleanupState :=
  match item.kind with
  | .job => s.setStage w (.inside item takenAt .auditing)
  | .session => s.setStage w (.releasing item takenAt .finished)

def audit (s : CleanupState) (w : Nat) (item : PurgeItem) (takenAt : Nat) (written : Bool) :
    CleanupState :=
  { s with audits := if written then item.id :: s.audits else s.audits }.setStage w
    (.releasing item takenAt .finished)

/-- A move that the worker cannot make where it stands changes nothing. -/
def move (s : CleanupState) (w : Nat) (m : PurgeMove) : CleanupState :=
  match m, s.workers w with
  | .start, .stopped => s.setStage w .asleep
  | .wake, .asleep => s.setStage w (.selecting .job)
  | .select, .selecting kind => s.setStage w (.proceed kind (s.batch kind))
  | .set, .locking item => s.acquire w item
  | .answer, .answered item (some takenAt) =>
      s.setStage w (.inside item takenAt (.listing none))
  | .answer, .answered item none => s.setStage w (.proceed item.kind item.rest)
  | .list, .inside item takenAt (.listing after) => s.list w item takenAt after
  | .remove kept, .inside item takenAt (.removing names more) =>
      s.remove w item takenAt names more kept
  | .load, .inside item takenAt .loading => s.load w item takenAt
  | .commit, .inside item takenAt (.committing purgedAt) => s.commit w item takenAt purgedAt
  | .reply, .inside item takenAt .committed => s.reply w item takenAt
  | .audit written, .inside ⟨.job, id, rest⟩ takenAt .auditing =>
      s.audit w ⟨.job, id, rest⟩ takenAt written
  | .release, .releasing item _ outcome => s.release w item outcome
  | .raise, stage => s.setStage w stage.raise
  | .cancel, stage => s.setStage w stage.cancel
  | _, _ => s

end CleanupState

/-- What happens to owners and their artifacts, and what the workers do. -/
inductive CleanupAction
  /-- Time passes, in milliseconds. -/
  | tick (duration : Nat)
  | move (w : Nat) (m : PurgeMove)
  /-- The process of a worker dies. -/
  | crash (w : Nat)
  | createJob (id : Uuid) (retention : Int)
  /-- A handler, a pass or a request sets the status of a job. -/
  | jobStatus (id : Uuid) (status : JobStatus)
  /-- An engine, or the gateway, stores an artifact of a job. -/
  | storeForJob (id : Uuid) (name : String)
  | createSession (sessionId : String) (retention : Int)
  /-- `finalize_session`, which the connection of the session calls once. -/
  | finalizeSession (sessionId : String) (status : SessionStatus)
  /-- The recorders of a realtime engine store an artifact. -/
  | storeForSession (sessionId : String) (name : String)

namespace OwnerRow

/-- A new job, or a new session. -/
def created {kind : OwnerKind} (id : Uuid) (status : OwnerStatus kind) (retention : Int) :
    OwnerRow kind where
  id := id
  status := status
  retention := retention
  endedAt := none
  purgeAfter := none
  purgedAt := none

/-- No writer of a job's status sets `purge_after`. -/
def jobStatus (now : Nat) (status : JobStatus) (row : OwnerRow .job) : OwnerRow .job :=
  { row with
      status := status
      endedAt := if status.terminal then some now else row.endedAt }

def finalize (now : Nat) (status : SessionStatus) (row : OwnerRow .session) : OwnerRow .session :=
  if row.status = .active ∧ status.terminal = true then
    { row with
        status := status
        endedAt := some now
        purgeAfter := computePurgeAfter row.retention now }
  else row

theorem finalize_id (now : Nat) (status : SessionStatus) (row : OwnerRow .session) :
    (row.finalize now status).id = row.id := by
  unfold finalize
  split <;> rfl

theorem finalize_retention (now : Nat) (status : SessionStatus) (row : OwnerRow .session) :
    (row.finalize now status).retention = row.retention := by
  unfold finalize
  split <;> rfl

theorem finalize_purgedAt (now : Nat) (status : SessionStatus) (row : OwnerRow .session) :
    (row.finalize now status).purgedAt = row.purgedAt := by
  unfold finalize
  split <;> rfl

end OwnerRow

namespace CleanupState

/-- Insert a row whose retention is valid. -/
def create (s : CleanupState) (kind : OwnerKind) (row : OwnerRow kind) : CleanupState :=
  if validRetention row.retention then s.setOwners kind ((s.owners kind).insertOrIgnore row) else s

def store (s : CleanupState) (kind : OwnerKind) (folder name : String) : CleanupState :=
  { s with objects := ⟨kind, folder, name⟩ :: s.objects }

def act (s : CleanupState) : CleanupAction → CleanupState
  | .tick duration => { s with now := s.now + duration }
  | .move w m => s.move w m
  | .crash w => s.setStage w .stopped
  | .createJob id retention => s.create .job (.created id .pending retention)
  | .jobStatus id status =>
      s.setOwners .job (OwnerTable.modify (s.owners .job) id (.jobStatus s.now status) fun _ => rfl)
  | .storeForJob id name => s.store .job (uuidText id) name
  | .createSession sessionId retention =>
      match parseSessionId sessionId with
      | some id => s.create .session (.created id .active retention)
      | none => s
  | .finalizeSession sessionId status =>
      match parseSessionId sessionId with
      | some id =>
          s.setOwners .session (OwnerTable.modify (s.owners .session) id (.finalize s.now status)
            (OwnerRow.finalize_id s.now status))
      | none => s
  | .storeForSession sessionId name => s.store .session sessionId name

/-- No worker has been started yet, and nothing has been purged. -/
structure Unstarted (s : CleanupState) : Prop where
  stopped : ∀ w, s.workers w = .stopped
  unpurged : ∀ kind, ∀ row ∈ (s.owners kind).rows, row.purgedAt = none
  unaudited : s.audits = []

section Fields

variable (s : CleanupState) (w w' : Nat) (stage : PurgeStage) (kind : OwnerKind) (id : Uuid)
  (t : OwnerTable kind) (lock : Option (Lease Nat))

@[simp] theorem now_setStage : (s.setStage w stage).now = s.now := rfl

@[simp] theorem owners_setStage : (s.setStage w stage).owners = s.owners := rfl

@[simp] theorem audits_setStage : (s.setStage w stage).audits = s.audits := rfl

@[simp] theorem current_setStage : (s.setStage w stage).current kind id = s.current kind id := rfl

@[simp] theorem workers_setLock : (s.setLock kind id lock).workers = s.workers := rfl

@[simp] theorem workers_setOwners : (s.setOwners kind t).workers = s.workers := rfl

@[simp] theorem owners_setOwners_self : (s.setOwners kind t).owners kind = t := by
  simp [setOwners]

theorem owners_setOwners_ne {kind' : OwnerKind} (h : kind' ≠ kind) :
    (s.setOwners kind t).owners kind' = s.owners kind' := by
  simp [setOwners, h]

theorem workers_setStage :
    (s.setStage w stage).workers w' = if w' = w then stage else s.workers w' := by
  simp [setStage, Function.update_apply]

@[simp] theorem workers_setStage_self : (s.setStage w stage).workers w = stage := by
  simp [setStage]

theorem workers_setStage_ne {w' : Nat} (h : w' ≠ w) :
    (s.setStage w stage).workers w' = s.workers w' := by
  simp [setStage, h]

theorem current_setLock_self :
    (s.setLock kind id lock).current kind id = Lease.current lock s.now := by
  simp [current, setLock]

theorem current_setLock_ne {kind' : OwnerKind} {id' : Uuid} (h : ¬(kind' = kind ∧ id' = id)) :
    (s.setLock kind id lock).current kind' id' = s.current kind' id' := by
  unfold current setLock
  by_cases hkind : kind' = kind
  · subst hkind
    have hid : id' ≠ id := fun hid => h ⟨rfl, hid⟩
    simp [hid]
  · simp [hkind]

end Fields

end CleanupState

namespace PurgeStage

/-- The owner whose lock the worker goes by, and when it was taken. -/
def lease? : PurgeStage → Option (OwnerKind × Uuid × Nat)
  | answered item (some takenAt) | inside item takenAt _ | releasing item takenAt _ =>
      some (item.kind, item.id, takenAt)
  | _ => none

/-- The owners of the batch that the worker is not done with. -/
def pending : PurgeStage → OwnerKind → List Uuid
  | locking item, kind | answered item _, kind | inside item _ _, kind | releasing item _ _, kind =>
      if kind = item.kind then item.id :: item.rest else []
  | _, _ => []

@[simp] theorem lease?_proceed (kind : OwnerKind) (ids : List Uuid) :
    (proceed kind ids).lease? = none := by
  cases ids with
  | nil => cases kind <;> rfl
  | cons id rest => rfl

theorem lease?_released (item : PurgeItem) (outcome : PurgeOutcome) :
    (released item outcome).lease? = none := by
  cases outcome with
  | cancelled => rfl
  | finished | failed => exact lease?_proceed item.kind item.rest

theorem mem_pending_proceed {kind kind' : OwnerKind} {ids : List Uuid} {id : Uuid}
    (h : id ∈ (proceed kind ids).pending kind') : kind' = kind ∧ id ∈ ids := by
  cases ids with
  | nil => cases kind <;> simp [proceed, pending] at h
  | cons id' rest => simpa [proceed, pending] using h

end PurgeStage

namespace CleanupState

/-- What a move does, by how it leaves the lock that the worker goes by. -/
inductive Moved (s : CleanupState) (w : Nat) (m : PurgeMove) : CleanupState → Prop
  | stays : Moved s w m s
  /-- The worker goes by no lock, before or after, or leaves its lock to expire. -/
  | leaves (stage : PurgeStage) (hlease : stage.lease? = none)
      (hfrom : ∀ item takenAt step, s.workers w ≠ .inside item takenAt step)
      (hpending : ∀ kind id, id ∈ stage.pending kind →
        id ∈ (s.workers w).pending kind ∨ id ∈ s.batch kind) :
      Moved s w m (s.setStage w stage)
  | acquires (item : PurgeItem) (h : s.workers w = .locking item) : Moved s w m (s.acquire w item)
  | enters (item : PurgeItem) (takenAt : Nat) (hm : m = .answer)
      (h : s.workers w = .answered item (some takenAt)) :
      Moved s w m (s.setStage w (.inside item takenAt (.listing none)))
  /-- Objects are listed and deleted, and the row is read. -/
  | works (item : PurgeItem) (takenAt : Nat) (step step' : PurgeStep) (objects : List ObjectKey)
      (h : s.workers w = .inside item takenAt step)
      (hstep : step ≠ .committed ∧ step ≠ .auditing)
      (hobjects : objects ⊆ s.objects)
      (hstep' : step' ≠ .committed ∧ step' ≠ .auditing)
      (hcommitting : ∀ purgedAt, step' = .committing purgedAt → purgedAt = s.now ∧
        ∃ row ∈ (s.owners item.kind).rows, row.id = item.id ∧ row.purgedAt = none) :
      Moved s w m ({ s with objects := objects }.setStage w (.inside item takenAt step'))
  | commits (item : PurgeItem) (takenAt purgedAt : Nat)
      (h : s.workers w = .inside item takenAt (.committing purgedAt)) :
      Moved s w m (s.commit w item takenAt purgedAt)
  | replies (item : PurgeItem) (takenAt : Nat) (hkind : item.kind = .job)
      (h : s.workers w = .inside item takenAt .committed) :
      Moved s w m (s.setStage w (.inside item takenAt .auditing))
  | audits (item : PurgeItem) (takenAt : Nat) (written : Bool) (hm : m = .audit written)
      (hkind : item.kind = .job)
      (h : s.workers w = .inside item takenAt .auditing) :
      Moved s w m (s.audit w item takenAt written)
  | ends (item : PurgeItem) (takenAt : Nat) (step : PurgeStep) (outcome : PurgeOutcome)
      (h : s.workers w = .inside item takenAt step)
      (hbroken : step = .committed ∨ step = .auditing →
        item.kind = .session ∨ m = .raise ∨ m = .cancel)
      (hfinished : outcome = .finished → step = .committed ∨
        ∀ row ∈ (s.owners item.kind).rows, row.id = item.id → row.purgedAt.isSome) :
      Moved s w m (s.setStage w (.releasing item takenAt outcome))
  | releases (item : PurgeItem) (takenAt : Nat) (outcome : PurgeOutcome)
      (h : s.workers w = .releasing item takenAt outcome) :
      Moved s w m (s.release w item outcome)

section Moves

variable {s : CleanupState} {w : Nat} {m : PurgeMove} {item : PurgeItem} {takenAt : Nat}

theorem moved_list {after : Option String} (h : s.workers w = .inside item takenAt (.listing after)) :
    Moved s w m (s.list w item takenAt after) := by
  unfold list
  dsimp only
  split
  · exact .works item takenAt _ .loading s.objects h (by simp) (List.Subset.refl _) (by simp) (by simp)
  · exact .works item takenAt _ (.removing _ _) s.objects h (by simp) (List.Subset.refl _) (by simp)
      (by simp)

theorem moved_remove {names kept : List String} {more : Bool}
    (h : s.workers w = .inside item takenAt (.removing names more)) :
    Moved s w m (s.remove w item takenAt names more kept) := by
  refine .works item takenAt _ _ _ h (by simp) List.filter_sublist.subset ?_ ?_
  · cases more <;> simp
  · cases more <;> simp

theorem moved_load (h : s.workers w = .inside item takenAt .loading) :
    Moved s w m (s.load w item takenAt) := by
  unfold load
  split
  case h_1 row hfind =>
    obtain ⟨hrow, hid⟩ := Table.find?_eq_some_iff.mp hfind
    cases hpurged : row.purgedAt with
    | none =>
        refine .works item takenAt _ (.committing s.now) s.objects h (by simp) (List.Subset.refl _)
          (by simp) ?_
        rintro purgedAt hstep
        obtain rfl := PurgeStep.committing.inj hstep
        exact ⟨rfl, row, hrow, hid, hpurged⟩
    | some purgedAt =>
        refine .ends item takenAt _ .finished h (by simp) fun _ => Or.inr ?_
        intro row' hrow' hid'
        rw [Table.eq_of_key hrow' hrow (hid'.trans hid.symm), hpurged]
        rfl
  case h_2 hfind =>
    refine .ends item takenAt _ .finished h (by simp) fun _ => Or.inr ?_
    intro row hrow hid
    exact absurd hid (Table.find?_eq_none_iff.mp hfind row hrow)

theorem moved_reply (h : s.workers w = .inside item takenAt .committed) :
    Moved s w m (s.reply w item takenAt) := by
  unfold reply
  split
  case h_1 hkind => exact .replies item takenAt hkind h
  case h_2 hkind =>
    exact .ends item takenAt _ .finished h (fun _ => Or.inl hkind) fun _ => Or.inl rfl

theorem moved_raise : Moved s w .raise (s.setStage w (s.workers w).raise) := by
  cases h : s.workers w with
  | stopped | asleep | selecting kind | locking item =>
      exact .leaves _ rfl (by simp [h]) (by simp [PurgeStage.raise, PurgeStage.pending])
  | answered item takenAt =>
      exact .leaves _ rfl (by simp [h]) (by simp [PurgeStage.raise, PurgeStage.pending])
  | inside item takenAt step =>
      cases step with
      | auditing =>
          have hsame : s.setStage w (PurgeStage.inside item takenAt .auditing).raise = s := by
            simp [setStage, PurgeStage.raise, ← h]
          rw [hsame]
          exact .stays
      | listing | removing | loading | committing | committed =>
          exact .ends item takenAt _ .failed h (by simp) (by simp)
  | releasing item takenAt outcome =>
      cases outcome with
      | finished | failed | cancelled =>
          exact .leaves _ rfl (by simp [h]) (by simp [PurgeStage.raise, PurgeStage.pending])

theorem moved_cancel : Moved s w .cancel (s.setStage w (s.workers w).cancel) := by
  cases h : s.workers w with
  | inside item takenAt step => exact .ends item takenAt _ .cancelled h (by simp) (by simp)
  | stopped | asleep | selecting kind | locking item | answered item takenAt
  | releasing item takenAt outcome =>
      exact .leaves _ rfl (by simp [h]) (by simp [PurgeStage.cancel, PurgeStage.pending])

theorem moved (s : CleanupState) (w : Nat) (m : PurgeMove) : Moved s w m (s.move w m) := by
  unfold move
  split
  case h_1 h => exact .leaves _ rfl (by simp [h]) (by simp [PurgeStage.pending])
  case h_2 h => exact .leaves _ rfl (by simp [h]) (by simp [PurgeStage.pending])
  case h_3 kind h =>
    refine .leaves _ (PurgeStage.lease?_proceed _ _) (by simp [h]) fun kind' id hid => Or.inr ?_
    obtain ⟨rfl, hbatch⟩ := PurgeStage.mem_pending_proceed hid
    exact hbatch
  case h_4 item h => exact .acquires item h
  case h_5 item takenAt h => exact .enters item takenAt rfl h
  case h_6 item h =>
    refine .leaves _ (PurgeStage.lease?_proceed _ _) (by simp [h]) fun kind' id hid => Or.inl ?_
    obtain ⟨rfl, hrest⟩ := PurgeStage.mem_pending_proceed hid
    simp [h, PurgeStage.pending, hrest]
  case h_7 h => exact moved_list h
  case h_8 h => exact moved_remove h
  case h_9 h => exact moved_load h
  case h_10 item takenAt purgedAt h => exact .commits item takenAt purgedAt h
  case h_11 h => exact moved_reply h
  case h_12 written id rest takenAt h => exact .audits ⟨.job, id, rest⟩ takenAt written rfl rfl h
  case h_13 item takenAt outcome h => exact .releases item takenAt outcome h
  case h_14 => exact moved_raise
  case h_15 => exact moved_cancel
  case h_16 => exact .stays

end Moves

/-- What happens to owners and their artifacts besides the sweeps. -/
inductive Outside (s : CleanupState) : CleanupState → Prop
  | stays : Outside s s
  | inserts (kind : OwnerKind) (row : OwnerRow kind) (hrow : row.purgedAt = none) :
      Outside s (s.setOwners kind ((s.owners kind).insertOrIgnore row))
  | modifies (kind : OwnerKind) (id : Uuid) (f : OwnerRow kind → OwnerRow kind)
      (hf : ∀ r, (f r).id = r.id) (hpurged : ∀ r, (f r).purgedAt = r.purgedAt) :
      Outside s (s.setOwners kind (OwnerTable.modify (s.owners kind) id f hf))
  | stores (key : ObjectKey) : Outside s { s with objects := key :: s.objects }

theorem outside_create (s : CleanupState) (kind : OwnerKind) {row : OwnerRow kind}
    (hrow : row.purgedAt = none) : Outside s (s.create kind row) := by
  unfold create
  split
  · exact .inserts kind row hrow
  · exact .stays

theorem Outside.workers_eq {s s' : CleanupState} (h : Outside s s') : s'.workers = s.workers := by
  cases h <;> rfl

theorem Outside.audits_eq {s s' : CleanupState} (h : Outside s s') : s'.audits = s.audits := by
  cases h <;> rfl

/-- Whoever acts is time, a worker or the outside. -/
theorem act_cases (s : CleanupState) (action : CleanupAction) :
    (∃ duration, action = .tick duration) ∨ (∃ w m, action = .move w m) ∨
      (∃ w, action = .crash w) ∨ Outside s (s.act action) := by
  cases action with
  | tick duration => exact Or.inl ⟨duration, rfl⟩
  | move w m => exact Or.inr (Or.inl ⟨w, m, rfl⟩)
  | crash w => exact Or.inr (Or.inr (Or.inl ⟨w, rfl⟩))
  | createJob id retention => exact Or.inr (Or.inr (Or.inr (outside_create s .job rfl)))
  | jobStatus id status =>
      exact Or.inr (Or.inr (Or.inr (.modifies .job id (.jobStatus s.now status)
        (fun _ => rfl) fun _ => rfl)))
  | storeForJob id name => exact Or.inr (Or.inr (Or.inr (.stores ⟨.job, uuidText id, name⟩)))
  | createSession sessionId retention =>
      refine Or.inr (Or.inr (Or.inr ?_))
      cases h : parseSessionId sessionId with
      | none => simpa only [act, h] using Outside.stays
      | some id => simpa only [act, h] using outside_create s .session rfl
  | finalizeSession sessionId status =>
      refine Or.inr (Or.inr (Or.inr ?_))
      cases h : parseSessionId sessionId with
      | none => simpa only [act, h] using Outside.stays
      | some id =>
          simpa only [act, h] using Outside.modifies .session id _
            (OwnerRow.finalize_id s.now status) (OwnerRow.finalize_purgedAt s.now status)
  | storeForSession sessionId name =>
      exact Or.inr (Or.inr (Or.inr (.stores ⟨.session, sessionId, name⟩)))

end CleanupState

end Dalston.Orchestrator.Cleanup
