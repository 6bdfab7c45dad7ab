import Dalston.Foundation.Session
import Dalston.Orchestrator.Recovery

/-!
# Tasks that wait for an engine

A task that is queued while its engine is away is marked as waiting. The scanner
times it out when its deadline has passed: it looks whether the task has been
picked up, blocks it, publishes the timeout, takes its message away and removes
the markers, each a command of its own. Meanwhile an engine may come up and
receive the message, and handlers move the task's row.

## Implementation notes

The handlers are those of the event loop on the stores of a job; here their
effects carry the event that is handled. The passes and the engines read and
write command by command. A handler may receive any published event at any time
and any number of times. An entry that is deleted from its stream stays in the
pending list of the engine that holds it, so deleted entries are listed beside
the stores. A journal keeps when engines began tasks and when tasks were ended
by their timeouts; nothing reads it.
-/

namespace Dalston.Orchestrator.WaitingTasks

open Foundation Model

inductive WaitMark
  /-- An engine has gone on to process the task, whose row counted the retries. -/
  | began (taskId : Uuid) (retries : Nat)
  /-- The handler of a timeout has failed or skipped the task. -/
  | timedOut (taskId : Uuid) (retries : Nat)
  deriving DecidableEq

/-- The stores of the job, the deleted entries, and the journal, latest first. -/
structure WaitStore where
  world : World
  deleted : List Nat
  journal : List WaitMark

/-- `if blocked_reason:`. -/
def isBlocked (metadata : TaskMetadata) : Bool := metadata.blockedReason.any (· ≠ "")

/-- The metadata of the task is there and names no reason to leave it alone. -/
def unblocked (w : World) (taskId : Uuid) : Bool := (w.metadata taskId).any fun m => !isBlocked m

/-- What the handler of a timeout records when it ends the task. -/
def timeoutMarks : Event → Effect → World → List WaitMark
  | .taskWaitTimeout taskId _, .failTask id .., w
  | .taskWaitTimeout taskId _, .skipTask id .., w =>
      if id = taskId then
        ((w.tasks.get? id).map fun task => .timedOut id task.retries).toList
      else []
  | _, _, _ => []

/-- What an engine records when it finds the task unblocked. -/
def beginMarks (taskId : Uuid) (w : World) : List WaitMark :=
  if unblocked w taskId then
    [.began taskId (((w.tasks.get? taskId).map (·.retries)).getD 0)]
  else []

inductive WaitEffect
  /-- Receive a published event, by its place in the stream. -/
  | receive (place : Nat)
  /-- An effect of the handler of the event. -/
  | handle (event : Event) (e : Effect)
  /-- An effect of a scan or an engine. -/
  | store (e : Effect)
  /-- `XREADGROUP` of an entry, or a takeover of one. -/
  | takeEntry (messageId : Nat)
  | deleteEntry (messageId : Nat)
  /-- Set `blocked_reason`. -/
  | block (taskId : Uuid)
  /-- Publish `task.wait_timeout`. -/
  | announceTimeout (taskId : Uuid) (error : String)
  /-- Read the metadata of a task that has been received. -/
  | checkBlocked (taskId : Uuid)
  /-- The end of `_process_task`. -/
  | leaveTask (taskId : Uuid)
  | sremWaiting (taskId : Uuid)
  | hdelMarkers (taskId : Uuid)

namespace WaitStore

/-- The entry can be handed to an engine. -/
def deliverable (s : WaitStore) (messageId : Nat) (entry : StreamEntry) : Bool :=
  entry.messageId = messageId && entry.live && messageId ∉ s.deleted

def delivery? (s : WaitStore) (messageId : Nat) : Option StreamEntry :=
  s.world.stream.find? (s.deliverable messageId)

end WaitStore

def dropWaiting (taskId : Uuid) (w : World) : World :=
  { w with waitingTasks := w.waitingTasks.filter (· ≠ taskId) }

/-- The metadata without the fields of a waiting task. -/
def unmarked (m : TaskMetadata) : TaskMetadata :=
  { m with waitingForEngine := false, waitTimeoutS := none, waitDeadlineAt := none }

def WaitEffect.apply (e : WaitEffect) (s : WaitStore) : WaitStore :=
  match e with
  | receive _ | leaveTask _ => s
  | handle event e =>
      { s with world := e.apply s.world, journal := timeoutMarks event e s.world ++ s.journal }
  | store e => { s with world := e.apply s.world }
  | block taskId =>
      { s with world := (Effect.blockTask taskId "engine_wait_timeout").apply s.world }
  | announceTimeout taskId error =>
      { s with world := (Effect.publish (.taskWaitTimeout taskId error)).apply s.world }
  | takeEntry messageId =>
      if (s.delivery? messageId).isSome then
        { s with world := (Effect.claimEntry messageId).apply s.world }
      else s
  | deleteEntry messageId => { s with deleted := messageId :: s.deleted }
  | checkBlocked taskId => { s with journal := beginMarks taskId s.world ++ s.journal }
  | sremWaiting taskId => { s with world := dropWaiting taskId s.world }
  | hdelMarkers taskId => { s with world := Effect.modifyMetadata taskId unmarked s.world }

instance : Interprets WaitEffect WaitStore := ⟨WaitEffect.apply⟩

abbrev WaitAction (A : Type) := Program WaitEffect WaitStore A

/-- Perform one effect for its update only. -/
def exec (e : WaitEffect) : WaitAction Unit := do
  let _ ← Program.perform e

/-- Read the stores. -/
def getStores : WaitAction World := do
  return (← Program.perform (.store .read)).world

section Scanner

/-- What a scan learns from the clock and the settings. -/
structure WaitScan where
  now : Time
  engineWaitTimeoutSeconds : Nat
  /-- The pending list could not be read for the task. -/
  pendingError : Uuid → Bool

/-- `_clear_waiting_task_marker`. -/
def clearWaitingTaskMarker (taskId : Uuid) : WaitAction Unit := do
  exec (.sremWaiting taskId)
  exec (.hdelMarkers taskId)

/-- `metadata.get("queue_id") or metadata.get("engine_id")`. -/
def queueOf (metadata : TaskMetadata) : String :=
  if metadata.queueId = "" then metadata.engineId else metadata.queueId

/-- The message of the task, when the queue it is in is known as well. -/
def messageOf (metadata : TaskMetadata) : Option Nat :=
  if queueOf metadata = "" then none else metadata.streamMessageId

/-- `_is_stream_message_pending`. -/
def isStreamMessagePending (scan : WaitScan) (taskId : Uuid) : Option Nat → WaitAction Bool
  | none => return false
  | some messageId => do
      let w ← getStores
      return isPending w messageId && !scan.pendingError taskId

def timeoutError (scan : WaitScan) (task : TaskModel) (metadata : TaskMetadata) : String :=
  let engineId := if metadata.engineId = "" then task.engineId else metadata.engineId
  let timeout := metadata.waitTimeoutS.getD scan.engineWaitTimeoutSeconds
  s!"Runtime '{engineId}' did not become available within {timeout} seconds"

def deleteMessage : Option Nat → WaitAction Unit
  | none => return ()
  | some messageId => exec (.deleteEntry messageId)

/-- Block the task first, announce its timeout, and take its message and its markers away. -/
def timeOut (scan : WaitScan) (task : TaskModel) (metadata : TaskMetadata) : WaitAction Unit := do
  exec (.block task.id)
  exec (.announceTimeout task.id (timeoutError scan task metadata))
  deleteMessage (messageOf metadata)
  clearWaitingTaskMarker task.id

/-- The task has not moved on. -/
def waits (task : TaskModel) : Bool := task.status = .ready || task.status = .pending

/-- The deadline has passed: time the task out unless it has moved on or been picked up. -/
def scanOverdue (scan : WaitScan) (taskId : Uuid) (metadata : TaskMetadata) :
    WaitAction Unit := do
  match (← getStores).tasks.get? taskId with
  | none => clearWaitingTaskMarker taskId
  | some task =>
      if waits task then do
        if ← isStreamMessagePending scan taskId (messageOf metadata) then
          clearWaitingTaskMarker taskId
        else timeOut scan task metadata
      else clearWaitingTaskMarker taskId

/-- One round of `_scan_waiting_engine_timeouts`. -/
def scanWaitingTask (scan : WaitScan) (taskId : Uuid) : WaitAction Unit := do
  match (← getStores).metadata taskId with
  | none => exec (.sremWaiting taskId)
  | some metadata =>
      if metadata.waitingForEngine then
        match metadata.waitDeadlineAt with
        | none => clearWaitingTaskMarker taskId
        | some deadline =>
            if scan.now ≤ deadline then return () else scanOverdue scan taskId metadata
      else exec (.sremWaiting taskId)

def scanEach (scan : WaitScan) : List Uuid → WaitAction Unit
  | [] => return ()
  | taskId :: rest => do
      scanWaitingTask scan taskId
      scanEach scan rest

/-- `_scan_waiting_engine_timeouts`. -/
def scanWaitingEngineTimeouts (scan : WaitScan) : WaitAction Unit := do
  scanEach scan (← getStores).waitingTasks

end Scanner

section Engine

/-- How the processing of a task goes. -/
inductive EngineRun
  | completed (response : Config)
  | failed (error : String)
  /-- An error before the start is announced. -/
  | unstarted (error : String)
  | deferred

/-- `_clear_waiting_engine_marker`; of its two commands the given number succeed. -/
def clearWaitingEngineMarker (taskId : Uuid) (succeed : Nat) : WaitAction Unit := do
  if succeed = 0 then return ()
  else do
    exec (.hdelMarkers taskId)
    if succeed = 1 then return () else exec (.sremWaiting taskId)

/-- `_process_task`; the result says whether the message is to be acknowledged. -/
def processTask (taskId : Uuid) : EngineRun → WaitAction Bool
  | .completed response => do
      exec (.store (.publish (.taskStarted taskId)))
      exec (.store (.putResponse taskId response))
      exec (.store (.publish (.taskCompleted taskId)))
      exec (.leaveTask taskId)
      return true
  | .failed error => do
      exec (.store (.publish (.taskStarted taskId)))
      exec (.store (.publish (.taskFailed taskId error)))
      exec (.leaveTask taskId)
      return true
  | .unstarted error => do
      exec (.store (.publish (.taskFailed taskId error)))
      exec (.leaveTask taskId)
      return true
  | .deferred => do
      exec (.store (.publish (.taskStarted taskId)))
      exec (.leaveTask taskId)
      return false

/-- Check whether the task is blocked, and process it if not. -/
def processUnlessBlocked (taskId : Uuid) (messageId succeed : Nat) (run : EngineRun) :
    WaitAction Unit := do
  match (← Program.perform (.checkBlocked taskId)).world.metadata taskId with
  | none => do
      exec (.store (.publish (.taskFailed taskId s!"Task metadata not found in Redis: {taskId}")))
      exec (.store (.ackEntry messageId))
  | some metadata =>
      if isBlocked metadata then exec (.store (.ackEntry messageId))
      else do
        clearWaitingEngineMarker taskId succeed
        if ← processTask taskId run then exec (.store (.ackEntry messageId)) else return ()

/-- `_poll_and_process`, when it comes to the given message. -/
def pollAndProcess (messageId succeed : Nat) (run : EngineRun) : WaitAction Unit := do
  match (← Program.perform (.takeEntry messageId)).delivery? messageId with
  | none => return ()
  | some entry =>
      if (← getStores).cancelledFlag then do
        clearWaitingEngineMarker entry.taskId succeed
        exec (.store (.ackEntry messageId))
      else processUnlessBlocked entry.taskId messageId succeed run

end Engine

/-- A handler of an event, a pass of the scanner, or a poll of an engine. -/
inductive Party
  | handler (env : Env) (place : Nat)
  | scanner (scan : WaitScan)
  | engine (messageId succeed : Nat) (run : EngineRun)

/-- The handler of an event, on the stores of the job. -/
def handle (env : Env) (event : Event) : WaitAction Unit := do
  let _ ← (dispatch env event).within (.handle event) WaitStore.world

/-- Receive the event at a place of the stream, and handle it. -/
def consume (env : Env) (place : Nat) : WaitAction Unit := do
  match (← Program.perform (.receive place)).world.published[place]? with
  | none => return ()
  | some event => handle env event

def Party.code : Party → WaitAction Unit
  | handler env place => consume env place
  | scanner scan => scanWaitingEngineTimeouts scan
  | engine messageId succeed run => pollAndProcess messageId succeed run

end Dalston.Orchestrator.WaitingTasks
