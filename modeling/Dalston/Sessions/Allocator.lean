import Dalston.Foundation.Pool
import Dalston.Registry.Records

/-!
# Sessions of realtime workers

A session reserves a slot of an engine instance by incrementing the instance's
counter, and is then recorded and indexed. It gives the slot back when it is
released, or when a health monitor finds that its record has expired. Each of
these is a program of single Redis commands, and any number of them run side by
side.

## Implementation notes

The counter lives in a hash of its own, which the engine registry does not
share. A command that changes a counter names the session it is issued for; the
name is not part of the command. Times to live are not modelled: a record may
expire at any moment.
-/

namespace Dalston.Sessions

open Foundation Registry

abbrev SessionId := Nat

/-- The keys under `dalston:realtime:`, and the records of the engine registry. -/
structure SessionStore where
  registry : List EngineRecord
  /-- The session ids that have been drawn are those below. -/
  nextId : SessionId
  /-- The field `active_sessions` of an instance; a missing field counts as zero. -/
  activeSessions : String → Int
  session : SessionId → Option Hash
  instanceSessions : String → List SessionId
  instances : List String
  active : List SessionId

/-- A store in which no session was ever made. -/
def SessionStore.fresh (registry : List EngineRecord) : SessionStore where
  registry
  nextId := 0
  activeSessions _ := 0
  session _ := none
  instanceSessions _ := []
  instances := []
  active := []

inductive Command
  /-- The reads of `get_available`. -/
  | readRegistry
  | uuid4
  | hincrby (instanceId : String) (delta : Int) (sid : SessionId)
  | hsetCounter (instanceId : String) (value : Int) (sid : SessionId)
  | hsetSession (sid : SessionId) (mapping : Hash)
  | expireSession (sid : SessionId)
  | hgetallSession (sid : SessionId)
  | existsSession (sid : SessionId)
  | saddSessions (instanceId : String) (sid : SessionId)
  | sremSessions (instanceId : String) (sid : SessionId)
  | sismemberSessions (instanceId : String) (sid : SessionId)
  | saddInstances (instanceId : String)
  | smembersInstances
  | saddActive (sid : SessionId)
  | sremActive (sid : SessionId)
  | smembersActive
  /-- The record of a session reaches the end of its time to live. -/
  | sessionExpires (sid : SessionId)
  /-- Engines register, send heartbeats and expire. -/
  | registryChanges (records : List EngineRecord)

def Command.apply (c : Command) (s : SessionStore) : SessionStore :=
  match c with
  | .uuid4 => { s with nextId := s.nextId + 1 }
  | .hincrby i delta _ =>
      { s with activeSessions := Function.update s.activeSessions i (s.activeSessions i + delta) }
  | .hsetCounter i value _ =>
      { s with activeSessions := Function.update s.activeSessions i value }
  | .hsetSession sid mapping =>
      { s with
          session := Function.update s.session sid
            (some (Dict.merge ((s.session sid).getD []) mapping)) }
  | .saddSessions i sid =>
      { s with
          instanceSessions := Function.update s.instanceSessions i
            ((s.instanceSessions i).insert sid) }
  | .sremSessions i sid =>
      { s with
          instanceSessions := Function.update s.instanceSessions i
            ((s.instanceSessions i).filter (· ≠ sid)) }
  | .saddInstances i => { s with instances := s.instances.insert i }
  | .saddActive sid => { s with active := s.active.insert sid }
  | .sremActive sid => { s with active := s.active.filter (· ≠ sid) }
  | .sessionExpires sid => { s with session := Function.update s.session sid none }
  | .registryChanges records => { s with registry := records }
  | .readRegistry | .expireSession _ | .hgetallSession _ | .existsSession _
  | .sismemberSessions _ _ | .smembersInstances | .smembersActive => s

instance : Interprets Command SessionStore := ⟨Command.apply⟩

abbrev Op (A : Type) := Program Command SessionStore A

def exec (c : Command) : Op Unit := do
  let _ ← Program.perform c
  return ()

/-- `HINCRBY` of the counter; the result is the new count. -/
def hincrby (i : String) (delta : Int) (sid : SessionId) : Op Int := do
  let before ← Program.perform (.hincrby i delta sid)
  return before.activeSessions i + delta

def uuid4 : Op SessionId := do
  let before ← Program.perform .uuid4
  return before.nextId

section Follows

variable {A L : Type} {R : L → SessionStore → Command → L → Prop} {J : SessionStore → Prop}
  {Q : A → L → Prop} {l : L}

theorem follows_hincrby {i : String} {delta : Int} {sid : SessionId} {f : Int → Op A} :
    (hincrby i delta sid >>= f).Follows R J Q l ↔
      ∀ s, J s → ∃ l', R l s (.hincrby i delta sid) l' ∧
        (f (s.activeSessions i + delta)).Follows R J Q l' :=
  Iff.rfl

theorem follows_uuid4 {f : SessionId → Op A} :
    (uuid4 >>= f).Follows R J Q l ↔
      ∀ s, J s → ∃ l', R l s .uuid4 l' ∧ (f s.nextId).Follows R J Q l' :=
  Iff.rfl

end Follows

/-- What a session is asked for. -/
structure SessionRequest where
  now : Model.Time
  language : String
  model : Option String
  clientIp : String
  engineId : Option String
  validEngineIds : Option (List String)

/-- Result of successful worker allocation. -/
structure WorkerAllocation where
  instanceId : String
  endpoint : Option String
  sessionId : SessionId
  engineId : String

/-- Session state stored in Redis. -/
structure SessionState where
  sessionId : SessionId
  instanceId : String
  status : String
  language : String
  model : String
  clientIp : String
  startedAt : Option Model.Time

/-- The record of a new session. -/
def sessionMapping (request : SessionRequest) (instanceId : String) : Hash :=
  [("instance", .text instanceId), ("status", .text "active"),
    ("language", .text request.language), ("model", .text (request.model.getD "")),
    ("client_ip", .text request.clientIp), ("started_at", .instant request.now)]

/-- `_create_session`. -/
def createSession (request : SessionRequest) (sid : SessionId) (instanceId : String) :
    Op Unit := do
  exec (.hsetSession sid (sessionMapping request instanceId))
  exec (.expireSession sid)

/-- Record and index a session on a worker whose slot is reserved. -/
def establish (request : SessionRequest) (sid : SessionId) (worker : EngineRecord) :
    Op (Option WorkerAllocation) := do
  createSession request sid worker.instanceId
  exec (.saddSessions worker.instanceId sid)
  exec (.saddInstances worker.instanceId)
  exec (.saddActive sid)
  return some {
    instanceId := worker.instanceId, endpoint := worker.endpoint, sessionId := sid
    engineId := worker.engineId }

/-- `_acquire_from_list`: try to acquire from the remaining workers. -/
def acquireFromList (request : SessionRequest) :
    List EngineRecord → Op (Option WorkerAllocation)
  | [] => return none
  | worker :: workers => do
      let sid ← uuid4
      let newCount ← hincrby worker.instanceId 1 sid
      if newCount ≤ worker.capacity then establish request sid worker
      else do
        let _ ← hincrby worker.instanceId (-1) sid
        acquireFromList request workers

def SessionRequest.wanted (request : SessionRequest) : Wanted where
  now := request.now
  interface := some "realtime"
  engineId := request.engineId
  model := request.model
  validEngineIds := request.validEngineIds

/-- Select the best worker of the available ones, and fall back to the others. -/
def acquireAvailable (request : SessionRequest) :
    List EngineRecord → Op (Option WorkerAllocation)
  | [] => return none
  | worker :: workers => do
      let sid ← uuid4
      let newCount ← hincrby worker.instanceId 1 sid
      if newCount > worker.capacity then do
        let _ ← hincrby worker.instanceId (-1) sid
        if workers.length > 0 then acquireFromList request workers else return none
      else establish request sid worker

def acquireWorker (request : SessionRequest) : Op (Option WorkerAllocation) := do
  let before ← Program.perform .readRegistry
  acquireAvailable request (request.wanted.getAvailable before.registry)

/-- The instance a session's record names. -/
def instanceOf (data : Hash) : Option String :=
  EngineRecord.nonempty (EngineRecord.field data "instance" FieldText.asText)

def sessionState (sid : SessionId) (instanceId : String) (data : Hash) : SessionState where
  sessionId := sid
  instanceId
  status := "ended"
  language := (EngineRecord.field data "language" FieldText.asText).getD "auto"
  model := (EngineRecord.field data "model" FieldText.asText).getD "fast"
  clientIp := (EngineRecord.field data "client_ip" FieldText.asText).getD ""
  startedAt := EngineRecord.field data "started_at" FieldText.asInstant

/-- Give back the slot of a session whose record names an instance. -/
def releaseSlot (sid : SessionId) (data : Hash) : Option String → Op (Option SessionState)
  | none => return none
  | some instanceId => do
      let _ ← hincrby instanceId (-1) sid
      exec (.sremSessions instanceId sid)
      exec (.sremActive sid)
      exec (.hsetSession sid [("status", .text "ended")])
      exec (.expireSession sid)
      return some (sessionState sid instanceId data)

def releaseFound (sid : SessionId) : Option Hash → Op (Option SessionState)
  | none => return none
  | some data => releaseSlot sid data (instanceOf data)

def releaseWorker (sid : SessionId) : Op (Option SessionState) := do
  let before ← Program.perform (.hgetallSession sid)
  releaseFound sid (before.session sid)

/-- Ensure the counter does not go negative. -/
def clampCounter (instanceId : String) (sid : SessionId) (newCount : Int) : Op Unit :=
  if newCount < 0 then exec (.hsetCounter instanceId 0 sid) else return ()

/-- Clean up the first instance that has the session. -/
def cleanInstances (sid : SessionId) : List String → Op Unit
  | [] => return ()
  | instanceId :: rest => do
      let before ← Program.perform (.sismemberSessions instanceId sid)
      if sid ∈ before.instanceSessions instanceId then do
        let newCount ← hincrby instanceId (-1) sid
        clampCounter instanceId sid newCount
        exec (.sremSessions instanceId sid)
      else cleanInstances sid rest

/-- Whether the session was orphaned; it is then cleaned up. -/
def reconcileSession (sid : SessionId) : Op Bool := do
  let before ← Program.perform (.existsSession sid)
  if (before.session sid).isSome then return false
  else do
    let before ← Program.perform .smembersInstances
    cleanInstances sid before.instances
    exec (.sremActive sid)
    return true

def reconcileSessions : List SessionId → Nat → Op Nat
  | [], cleanedCount => return cleanedCount
  | sid :: rest, cleanedCount => do
      let cleaned ← reconcileSession sid
      reconcileSessions rest (if cleaned then cleanedCount + 1 else cleanedCount)

/-- `HealthMonitor.reconcile_orphaned_sessions`. -/
def reconcileOrphanedSessions : Op Nat := do
  let before ← Program.perform .smembersActive
  reconcileSessions before.active 0

inductive Call
  | acquire (request : SessionRequest)
  | release (sid : SessionId)
  | reconcile

inductive Reply
  | allocated (allocation : Option WorkerAllocation)
  | released (state : Option SessionState)
  | cleaned (count : Nat)

def Call.code : Call → Op Reply
  | .acquire request => do
      let allocation ← acquireWorker request
      return .allocated allocation
  | .release sid => do
      let state ← releaseWorker sid
      return .released state
  | .reconcile => do
      let cleanedCount ← reconcileOrphanedSessions
      return .cleaned cleanedCount

abbrev SessionShared := Shared Call Command SessionStore Reply

abbrev SessionThread := Thread Call Command SessionStore Reply

abbrev SessionPool := Pool Call Command SessionStore Reply

end Dalston.Sessions
