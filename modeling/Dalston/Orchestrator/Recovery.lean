import Dalston.Orchestrator.Deliveries

/-!
# The stale-task scanner and the reconciler

Two leaders sweep the stores beside the event loop. The scanner fails running
tasks of dead engines and times out tasks that wait for an engine; the
reconciler settles running tasks that no stream entry is pending for, clears
and repeats stream entries, and completes stuck jobs. Each writes a task's row
and publishes the task's event as separate effects, the reconciler in the
opposite order to the scanner.

## Implementation notes

What a sweep learns about engines and about time is the record `Sweep`. A
deleted stream entry and an acknowledged one are both gone from the pending
list, and count as delivered once the group has read past them.
-/

namespace Dalston.Orchestrator

open Foundation Model

/-- What a sweep learns from the registry, the clock and the object store. -/
structure Sweep where
  now : Time
  /-- Why a pending entry's task has to fail: its engine is dead, or it timed out. -/
  staleError : StreamEntry → Option String
  engineWaitTimeoutSeconds : Nat
  /-- The task started before the orphan threshold. -/
  longRunning : TaskModel → Bool
  /-- The object store could not be asked for the task's response. -/
  storeError : Uuid → Bool
  /-- A pending entry is stale and its engine is dead. -/
  deadEntry : StreamEntry → Bool
  /-- The task was enqueued before the recovery threshold. -/
  longReady : TaskMetadata → Bool
  /-- The job started, and its last task ended, before the stuck-job threshold. -/
  longStuck : World → Bool

/-- The entry is in a consumer's pending list. -/
def isPending (w : World) (messageId : Nat) : Bool :=
  w.stream.any fun entry => entry.messageId = messageId && entry.state = .claimed

def pendingEntries (w : World) : List StreamEntry :=
  w.stream.filter fun entry => entry.state = .claimed

section Scanner

/-- Fail a task that is still running. -/
def failIfRunning (sweep : Sweep) (taskId : Uuid) (error : String) :
    Option TaskModel → Action Unit
  | none => return ()
  | some task =>
      if task.status = .running then do
        exec (.failTask taskId (.text error) (some sweep.now))
        exec (.publish (.taskFailed taskId error))
      else return ()

/-- `StaleTaskScanner._fail_task`. -/
def failStaleTask (sweep : Sweep) (taskId : Uuid) (error : String) : Action Unit := do
  failIfRunning sweep taskId error (← getTask taskId)

/-- `_scan_stream`. -/
def scanEntries (sweep : Sweep) : List StreamEntry → Action Unit
  | [] => return ()
  | entry :: rest =>
      match sweep.staleError entry with
      | none => scanEntries sweep rest
      | some error => do
          failStaleTask sweep entry.taskId error
          scanEntries sweep rest

def scanStreams (sweep : Sweep) : Action Unit := do
  scanEntries sweep (pendingEntries (← getWorld))

def deleteMessage : Option Nat → Action Unit
  | some messageId => exec (.deleteEntry messageId)
  | none => return ()

/-- Block the task, announce its timeout and take its entry away. -/
def timeOutTask (sweep : Sweep) (task : TaskModel) (metadata : TaskMetadata) : Action Unit := do
  let timeout := metadata.waitTimeoutS.getD sweep.engineWaitTimeoutSeconds
  exec (.blockTask task.id "engine_wait_timeout")
  exec (.publish (.taskWaitTimeout task.id
    s!"Runtime '{metadata.engineId}' did not become available within {timeout} seconds"))
  deleteMessage metadata.streamMessageId
  exec (.clearWaitingTask task.id)

/-- The deadline of a waiting task has passed and nothing has happened to it since. -/
def waitTimedOut (sweep : Sweep) (w : World) (task : TaskModel) (metadata : TaskMetadata) : Bool :=
  (metadata.waitDeadlineAt.any fun deadline => deadline < sweep.now) &&
    (task.status = .ready || task.status = .pending) &&
    !(metadata.streamMessageId.any fun messageId => isPending w messageId)

/-- The waiting marker of a task is kept while its deadline lies ahead. -/
def stillWaits (sweep : Sweep) (metadata : TaskMetadata) : Bool :=
  metadata.waitingForEngine && metadata.waitDeadlineAt.any fun deadline => sweep.now ≤ deadline

/-- One task of `_scan_waiting_engine_timeouts`, in the world it is looked at. -/
def scanWaitingIn (sweep : Sweep) (taskId : Uuid) (w : World) : Action Unit :=
  match w.metadata taskId, w.tasks.get? taskId with
  | some metadata, some task =>
      if stillWaits sweep metadata then return ()
      else if metadata.waitingForEngine && waitTimedOut sweep w task metadata then
        timeOutTask sweep task metadata
      else exec (.clearWaitingTask taskId)
  | some metadata, none =>
      if stillWaits sweep metadata then return () else exec (.clearWaitingTask taskId)
  | none, _ => exec (.clearWaitingTask taskId)

/-- `_scan_waiting_engine_timeouts`. -/
def scanWaitingTasks (sweep : Sweep) : List Uuid → Action Unit
  | [] => return ()
  | taskId :: rest => do
      scanWaitingIn sweep taskId (← getWorld)
      scanWaitingTasks sweep rest

/-- `StaleTaskScanner._scan`. -/
def scan (sweep : Sweep) : Action Unit := do
  scanStreams sweep
  scanWaitingTasks sweep (← getWorld).waitingTasks

/-- The effects of a scan. -/
def scanning : Effect → Prop
  | .read | .failTask .. | .publish _ | .blockTask .. | .deleteEntry _ | .clearWaitingTask _ => True
  | _ => False

theorem only_scanEntries (sweep : Sweep) (entries : List StreamEntry) :
    (scanEntries sweep entries).Only scanning := by
  induction entries with
  | nil => exact Program.only_done _
  | cons entry rest ih =>
      rw [scanEntries]
      split
      · exact ih
      · refine Program.only_bind (Program.only_bind (only_getTask trivial _) fun task => ?_)
          fun _ => ih
        unfold failIfRunning
        split
        · exact Program.only_done _
        · split
          · exact Program.only_bind (only_exec trivial) fun _ => only_exec trivial
          · exact Program.only_done _

theorem only_timeOutTask (sweep : Sweep) (task : TaskModel) (metadata : TaskMetadata) :
    (timeOutTask sweep task metadata).Only scanning := by
  refine Program.only_bind (only_exec trivial) fun _ => ?_
  refine Program.only_bind (only_exec trivial) fun _ => ?_
  refine Program.only_bind ?_ fun _ => only_exec trivial
  cases metadata.streamMessageId with
  | none => exact Program.only_done _
  | some messageId => exact only_exec trivial

theorem only_scanWaitingIn (sweep : Sweep) (taskId : Uuid) (w : World) :
    (scanWaitingIn sweep taskId w).Only scanning := by
  unfold scanWaitingIn
  split <;> try split_ifs
  all_goals
    first
    | exact Program.only_done _
    | exact only_timeOutTask sweep _ _
    | exact only_exec trivial

/-- Whatever the reads of a scan return, it performs no other effects. -/
theorem only_scan (sweep : Sweep) : (scan sweep).Only scanning := by
  have hwaiting : ∀ ids, (scanWaitingTasks sweep ids).Only scanning := by
    intro ids
    induction ids with
    | nil => exact Program.only_done _
    | cons id rest ih =>
        refine Program.only_bind (only_getWorld trivial) fun w => ?_
        exact Program.only_bind (only_scanWaitingIn sweep id w) fun _ => ih
  have hstreams : (scanStreams sweep).Only scanning :=
    Program.only_bind (only_getWorld trivial) fun _ => only_scanEntries sweep _
  exact Program.only_bind hstreams fun _ =>
    Program.only_bind (only_getWorld trivial) fun _ => hwaiting _

end Scanner

section Reconciler

/-- The tasks that run in the database while no entry of theirs is pending. -/
def orphans (sweep : Sweep) (w : World) : List TaskModel :=
  w.tasks.rows.filter fun t => t.status = .running && sweep.longRunning t &&
    !((pendingEntries w).any fun entry => entry.taskId = t.id) && !sweep.storeError t.id

/-- Publish the end of every orphan, which its commit will follow. -/
def publishOrphans (responses : Uuid → Option Config) : List TaskModel → Action Unit
  | [] => return ()
  | task :: rest => do
      exec (.publish (if (responses task.id).isSome then .taskCompleted task.id
        else .taskFailed task.id "Task orphaned: not found in Redis PEL during reconciliation"))
      publishOrphans responses rest

def hasResponse (w : World) (task : TaskModel) : Bool := (w.responses task.id).isSome

def settleFound (sweep : Sweep) (w : World) (found : List TaskModel) : Action Unit := do
  publishOrphans w.responses found
  if found.isEmpty then return ()
  else
    exec (.settleOrphans ((found.filter (hasResponse w)).map (·.id))
      ((found.filter fun t => !hasResponse w t).map (·.id)) sweep.now)

/-- `_reconcile_orphaned_db_tasks`. -/
def reconcileOrphanedDbTasks (sweep : Sweep) : Action Unit := do
  let w ← getWorld
  settleFound sweep w (orphans sweep w)

/-- A task that has ended in any way. -/
def hasEnded (task : TaskModel) : Bool :=
  task.status.terminal || task.status = .cancelled

def ackIfEnded (entry : StreamEntry) (task : Option TaskModel) : Action Unit :=
  if task.any hasEnded then exec (.ackEntry entry.messageId) else return ()

/-- `_reconcile_orphaned_pel_entries`. -/
def ackEndedEntries : List StreamEntry → Action Unit
  | [] => return ()
  | entry :: rest => do
      ackIfEnded entry (← getTask entry.taskId)
      ackEndedEntries rest

/-- The entry is added again before the old one goes. -/
def requeueIfDead (sweep : Sweep) (entry : StreamEntry) (task : Option TaskModel) :
    Action Unit :=
  if sweep.deadEntry entry && task.any fun t => t.status = .ready || t.status = .pending then do
    exec (.addTask entry.queueId entry.taskId)
    exec (.ackEntry entry.messageId)
  else return ()

/-- `_reconcile_stale_ready_tasks`. -/
def requeueDeadEntries (sweep : Sweep) : List StreamEntry → Action Unit
  | [] => return ()
  | entry :: rest => do
      requeueIfDead sweep entry (← getTask entry.taskId)
      requeueDeadEntries sweep rest

/-- The metadata names an entry that was delivered and is pending no more. -/
def consumedMessage (sweep : Sweep) (w : World) (task : TaskModel) : Option TaskMetadata :=
  (w.metadata task.id).filter fun metadata => sweep.longReady metadata &&
    metadata.streamMessageId.any fun messageId =>
      w.stream.any fun entry => entry.messageId = messageId && entry.state = .acked

def requeueTask (task : TaskModel) : Option TaskMetadata → Action Unit
  | some metadata => do
      let before ← Program.perform (.addTask metadata.queueId task.id)
      exec (.setStreamMessageId task.id before.nextMessageId)
  | none => return ()

/-- `_reconcile_ready_tasks_with_consumed_messages`. -/
def requeueConsumed (sweep : Sweep) : List TaskModel → Action Unit
  | [] => return ()
  | task :: rest => do
      requeueTask task (consumedMessage sweep (← getWorld) task)
      requeueConsumed sweep rest

/-- `_reconcile_stuck_running_jobs`. -/
def reconcileStuckJob (env : Env) (sweep : Sweep) : Action Unit := do
  let w ← getWorld
  let pipeline := pipelineTasks w.tasks.rows
  if w.job.status = .running && sweep.longStuck w && !pipeline.isEmpty &&
      pipeline.all (fun t => t.status.terminal && t.completedAt.isSome) then
    checkJobCompletion env
  else return ()

/-- The passes of a reconciliation over tasks and stream entries. -/
def reconcileTasks (sweep : Sweep) : Action Unit := do
  let entries := pendingEntries (← getWorld)
  reconcileOrphanedDbTasks sweep
  ackEndedEntries entries
  requeueDeadEntries sweep entries
  requeueConsumed sweep ((← getWorld).tasks.rows.filter fun t => t.status = .ready)

/-- `ReconciliationSweeper._reconcile`. -/
def reconcile (env : Env) (sweep : Sweep) : Action Unit := do
  reconcileTasks sweep
  reconcileStuckJob env sweep

/-- The effects of the passes over tasks and entries. -/
def reconciling : Effect → Prop
  | .read | .publish _ | .settleOrphans .. | .ackEntry _ | .addTask .. | .setStreamMessageId .. =>
      True
  | _ => False

/-- The effects of the passes over entries. -/
def requeueing : Effect → Prop
  | .read | .ackEntry _ | .addTask .. | .setStreamMessageId .. => True
  | _ => False

theorem reconciling_of_requeueing {e : Effect} (h : requeueing e) : reconciling e := by
  cases e <;> first | exact h.elim | trivial

theorem only_reconcileOrphanedDbTasks (sweep : Sweep) :
    (reconcileOrphanedDbTasks sweep).Only reconciling := by
  have hpublish : ∀ responses tasks, (publishOrphans responses tasks).Only reconciling := by
    intro responses tasks
    induction tasks with
    | nil => exact Program.only_done _
    | cons task rest ih => exact Program.only_bind (only_exec trivial) fun _ => ih
  refine Program.only_bind (only_getWorld trivial) fun w => ?_
  refine Program.only_bind (hpublish _ _) fun _ => ?_
  split
  · exact Program.only_done _
  · exact only_exec trivial

theorem only_ackEndedEntries (entries : List StreamEntry) :
    (ackEndedEntries entries).Only requeueing := by
  induction entries with
  | nil => exact Program.only_done _
  | cons entry rest ih =>
      refine Program.only_bind (only_getTask trivial _) fun task => ?_
      refine Program.only_bind ?_ fun _ => ih
      unfold ackIfEnded
      split
      · exact only_exec trivial
      · exact Program.only_done _

theorem only_requeueDeadEntries (sweep : Sweep) (entries : List StreamEntry) :
    (requeueDeadEntries sweep entries).Only requeueing := by
  induction entries with
  | nil => exact Program.only_done _
  | cons entry rest ih =>
      refine Program.only_bind (only_getTask trivial _) fun task => ?_
      refine Program.only_bind ?_ fun _ => ih
      unfold requeueIfDead
      split
      · exact Program.only_bind (only_exec trivial) fun _ => only_exec trivial
      · exact Program.only_done _

theorem only_requeueConsumed (sweep : Sweep) (tasks : List TaskModel) :
    (requeueConsumed sweep tasks).Only requeueing := by
  induction tasks with
  | nil => exact Program.only_done _
  | cons task rest ih =>
      refine Program.only_bind (only_getWorld trivial) fun w => ?_
      refine Program.only_bind ?_ fun _ => ih
      cases consumedMessage sweep w task with
      | none => exact Program.only_done _
      | some metadata =>
          exact Program.only_step trivial fun _ => only_exec trivial

/-- The passes over entries, which follow the one over tasks. -/
theorem only_repairEntries (sweep : Sweep) (entries : List StreamEntry) :
    Program.Only requeueing (do
      ackEndedEntries entries
      requeueDeadEntries sweep entries
      requeueConsumed sweep ((← getWorld).tasks.rows.filter fun t => t.status = .ready)) := by
  refine Program.only_bind (only_ackEndedEntries entries) fun _ => ?_
  refine Program.only_bind (only_requeueDeadEntries sweep entries) fun _ => ?_
  exact Program.only_bind (only_getWorld trivial) fun _ => only_requeueConsumed sweep _

/-- Whatever the reads of these passes return, they perform no other effects. -/
theorem only_reconcileTasks (sweep : Sweep) : (reconcileTasks sweep).Only reconciling := by
  refine Program.only_bind (only_getWorld trivial) fun w => ?_
  refine Program.only_bind (only_reconcileOrphanedDbTasks sweep) fun _ => ?_
  intro e h
  exact reconciling_of_requeueing (only_repairEntries sweep _ e h)

end Reconciler

section System

/-- Completing a stuck job is the end of a completion handler. -/
theorem wp_reconcileStuckJob (env : Env) (sweep : Sweep) (s : World) :
    ∃ b, b ≠ .build ∧ (∀ t, ¬ FailsJob env b t) ∧
      (reconcileStuckJob env sweep).wp (Permits env b s) (fun _ _ => True) s := by
  rcases hrows : s.tasks.rows with _ | ⟨t, rest⟩
  · refine ⟨.ignore, by simp, by simp [FailsJob], ?_⟩
    simp [reconcileStuckJob, hrows, pipelineTasks, Permits]
  · refine ⟨.settle t, by simp, by simp [FailsJob], ?_⟩
    simp only [reconcileStuckJob, Program.wp_bind, wp_getWorld]
    refine ⟨trivial, ?_⟩
    split
    · rename_i hstuck
      simp only [Bool.and_eq_true, decide_eq_true_eq] at hstuck
      have hrunning : s.job.status = .running := hstuck.1.1.1
      exact wp_checkJobCompletion rfl s rfl (by simp [hrunning])
    · trivial

/-- A step of the handlers, the engines, the scanner or the reconciler. -/
inductive SystemStep (okDelivery : Delivery → World → Prop) (okSweep : World → Effect → Prop) :
    World → World → Prop
  | event {s s' : World} (h : Step okDelivery s s') : SystemStep okDelivery okSweep s s'
  | scanner {s : World} (sweep : Sweep) (e : Effect) (h : (scan sweep).Offers e)
      (ok : okSweep s e) : SystemStep okDelivery okSweep s (e.apply s)
  | reconciler {s : World} (sweep : Sweep) (e : Effect) (h : (reconcileTasks sweep).Offers e)
      (ok : okSweep s e) : SystemStep okDelivery okSweep s (e.apply s)
  | stuckJob {s s' : World} (env : Env) (sweep : Sweep)
      (h : s' ∈ (reconcileStuckJob env sweep).cuts s) : SystemStep okDelivery okSweep s s'

abbrev SystemRun (okDelivery : Delivery → World → Prop) (okSweep : World → Effect → Prop) :
    World → World → Prop :=
  Relation.ReflTransGen (SystemStep okDelivery okSweep)

/-- An uninterrupted scan is a run. -/
theorem systemRun_scan (sweep : Sweep) (s : World) :
    SystemRun (fun _ _ => True) (fun _ _ => True) s ((scan sweep).run s).2 :=
  Program.reaches_cut (fun _ e he => .scanner sweep e he trivial) (Program.run_mem_cuts _ s)

theorem systemRun_of_run {ok : Delivery → World → Prop} {s s' : World} (h : Run ok s s') :
    SystemRun ok (fun _ _ => True) s s' :=
  h.lift id fun _ _ => .event

end System

end Dalston.Orchestrator
