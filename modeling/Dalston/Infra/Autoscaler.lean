import Dalston.Foundation.Actions
import Dalston.Infra.AutoscalePolicy

/-!
# The ticks of the GPU autoscaler

A tick reads the queues and the registry, scans the fleet of a shape, updates what it
keeps between ticks and then reaps, launches or terminates. Workers, engines and
operators go on in between.

## Implementation notes

A step of a tick is one access to the fleet, or the reads between two of them. Ticks
come one after the other. The engines of a worker are those whose streams the policy
names, and only the workers and keys of one shape are kept: another shape and a dry run
have others. A stored value may expire at any time. The draining mark in the registry,
which nothing reads, the shadow records and the tick snapshot are left out.
-/

namespace Dalston.Infra

open Foundation Model

/-- A pending or running instance of the shape. -/
structure Worker where
  instanceId : String
  spot : Bool
  managedBy : String
  running : Bool
  launchTime : Rat
  /-- A tick has launched it. -/
  ours : Bool
  /-- It has once had a registry record of every engine. -/
  registered : Bool

/-- A task delivered to an engine and not acknowledged. -/
structure Delivery where
  task : Nat
  engineId : String
  owner : String
  deriving DecidableEq

inductive BlockedKind
  | spotQuota
  | spotCapacity

structure BlockedInfo where
  kind : BlockedKind
  since : Rat
  consecutiveTicks : Nat
  detail : String

/-- A tick that has come to its decision. -/
structure TickRecord where
  now : Rat
  allIdle : Bool

/-- A launch by a tick: what its scan had shown, and what there was when it launched. -/
structure Launch where
  onDemand : Bool
  policy : ShapePolicy
  scanned : FleetSnapshot
  present : List Worker
  failedSpot : Nat

inductive Cause
  | reaped
  | scaledDown (scanned : FleetSnapshot)
  deriving DecidableEq

/-- A termination by a tick. -/
structure Termination where
  worker : Worker
  cause : Cause
  policy : ShapePolicy
  now : Rat
  /-- What the worker had been delivered and had not acknowledged. -/
  inFlight : List Delivery
  left : List Worker
  ticks : List TickRecord

inductive TickStage
  | waiting
  /-- The backlog and the registry have been read. -/
  | reading (policy : ShapePolicy) (now : Rat) (backlog : BacklogSnapshot)
      (nodes : String → List String)
  | reaping (policy : ShapePolicy) (now : Rat) (stuck : List String)
  /-- The decision is made; `managed` are the live workers that the autoscaler manages. -/
  | applying (policy : ShapePolicy) (now : Rat) (fleet : FleetSnapshot) (managed : List String)
      (action : ScaleAction)
  /-- The streams in `unchecked` have not been found empty. -/
  | draining (policy : ShapePolicy) (now : Rat) (fleet : FleetSnapshot) (target : String)
      (unchecked : List String)

structure Autoscaler where
  workers : List Worker
  usedIds : List String
  lag : String → Nat
  /-- The nodes with an unexpired record of an engine. -/
  records : String → List String
  deliveries : List Delivery
  idleSince : Option Rat
  blocked : Option BlockedInfo
  onDemandCooldown : Bool
  stage : TickStage
  /-- The ticks so far, the latest first. -/
  ticks : List TickRecord
  /-- How many spot launches have failed since the last one that succeeded. -/
  failedSpot : Nat
  launches : List Launch
  terminations : List Termination

inductive AutoscalerAction
  /-- A tick starts; `lagKnown` tells for which streams the lag is reported. -/
  | startTick (now : Rat) (overrides : Dict String) (lagKnown : String → Bool)
  | scanFleet
  | reap (raised : Bool)
  | launchSucceeds (instanceId : String) (launchTime : Rat)
  | launchFails (quota : Bool) (detail : String)
  | launchLockHeld
  /-- The decision needs no launch. -/
  | settle
  /-- The next stream is checked; `expired` tells whether the wait is over. -/
  | check (expired : Bool)
  | terminate
  | enqueue (engineId : String)
  | deliver (delivery : Delivery)
  /-- An engine takes over an entry of another. -/
  | transfer (delivery : Delivery) (owner : String)
  | acknowledge (delivery : Delivery)
  | runs (instanceId : String)
  /-- A heartbeat writes the record of an engine. -/
  | register (engineId instanceId : String)
  | lapse (engineId instanceId : String)
  /-- Somebody else launches a worker of the shape. -/
  | arrives (worker : Worker)
  /-- A spot interruption, or somebody else's termination. -/
  | vanishes (instanceId : String)
  | idleExpires
  | blockedExpires
  | cooldownExpires

/-- `_fetch_engine_backlog`; an unknown lag is counted, up to 500. -/
def Autoscaler.fetchEngineBacklog (s : Autoscaler) (lagKnown : String → Bool) (engineId : String) :
    EngineBacklog where
  engineId := engineId
  lag := if lagKnown engineId then s.lag engineId else min 500 (s.lag engineId)
  pending := s.deliveries.countP fun d => d.engineId = engineId

/-- The node has a record of every engine of the shape. -/
def ShapePolicy.fullyIn (policy : ShapePolicy) (nodes : String → List String) (instanceId : String) :
    Bool :=
  policy.streamEngineIds.all fun engineId => instanceId ∈ nodes engineId

/-- `discover_gpu_workers`: the oldest first. -/
def discoverGpuWorkers (workers : List Worker) : List Worker :=
  workers.insertionSort fun v w =>
    v.launchTime < w.launchTime ∨ v.launchTime = w.launchTime ∧ v.instanceId ≤ w.instanceId

def ShapePolicy.isLive (policy : ShapePolicy) (nodes : String → List String) (w : Worker) : Bool :=
  w.running && policy.fullyIn nodes w.instanceId

def liveWorkers (policy : ShapePolicy) (nodes : String → List String) (workers : List Worker) :
    List Worker :=
  (discoverGpuWorkers workers).filter (policy.isLive nodes)

def pendingWorkers (policy : ShapePolicy) (nodes : String → List String) (workers : List Worker) :
    List Worker :=
  (discoverGpuWorkers workers).filter fun w => !policy.isLive nodes w

/-- `_fetch_autoscale_fleet`. -/
def fetchAutoscaleFleet (policy : ShapePolicy) (nodes : String → List String)
    (workers : List Worker) : FleetSnapshot :=
  let live := liveWorkers policy nodes workers
  let pending := pendingWorkers policy nodes workers
  { liveInstanceIds := live.map (·.instanceId)
    pendingInstanceIds := pending.map (·.instanceId)
    spotLiveInstanceIds := (live.filter (·.spot)).map (·.instanceId)
    spotPendingInstanceIds := (pending.filter (·.spot)).map (·.instanceId) }

def Worker.managed (w : Worker) : Bool := w.managedBy = "autoscaler"

/-- The workers that `_reap_stuck_pending` finds. -/
def stuckPending (policy : ShapePolicy) (nodes : String → List String) (workers : List Worker)
    (now : Rat) : List Worker :=
  (pendingWorkers policy nodes workers).filter fun w =>
    w.managed && policy.bootTimeoutS ≤ now - w.launchTime

/-- `_update_idle_state`: what is stored, and how long the shape has been idle. -/
def updateIdleState (idleSince : Option Rat) (idleNow : Bool) (now : Rat) :
    Option Rat × Option Rat :=
  if idleNow then
    match idleSince with
    | some since => (some since, some (now - since))
    | none => (some now, none)
  else (none, none)

/-- `_write_blocked_state`. -/
def writeBlockedState (blocked : Option BlockedInfo) (kind : BlockedKind) (detail : String)
    (now : Rat) : BlockedInfo :=
  match blocked with
  | some info => ⟨kind, info.since, info.consecutiveTicks + 1, detail⟩
  | none => ⟨kind, now, 1, detail⟩

/-- The worker that is terminated: the newest on-demand one, else the newest. -/
def terminationTarget (fleet : FleetSnapshot) (managed : List String) : Option String :=
  let candidates := fleet.liveInstanceIds.filter (· ∈ managed)
  let onDemand := candidates.filter (· ∉ fleet.spotLiveInstanceIds)
  onDemand.getLast?.or candidates.getLast?

namespace Autoscaler

def updateWorker (s : Autoscaler) (instanceId : String) (f : Worker → Worker) : Autoscaler :=
  { s with workers := s.workers.map fun w => if w.instanceId = instanceId then f w else w }

def removeWorker (s : Autoscaler) (instanceId : String) : Autoscaler :=
  { s with workers := s.workers.filter fun w => w.instanceId ≠ instanceId }

/-- `terminate_gpu_worker`, of a worker that is still there. -/
def terminateGpuWorker (s : Autoscaler) (instanceId : String) (cause : Cause) (policy : ShapePolicy)
    (now : Rat) : Autoscaler :=
  match s.workers.find? fun w => w.instanceId = instanceId with
  | none => s
  | some worker =>
      let left := s.workers.filter fun w => w.instanceId ≠ instanceId
      { s with
          workers := left
          terminations :=
            ⟨worker, cause, policy, now, s.deliveries.filter fun d => d.owner = instanceId, left,
              s.ticks⟩ :: s.terminations }

def startTick (py : Conversions) (base : ShapePolicy) (s : Autoscaler) (now : Rat)
    (overrides : Dict String) (lagKnown : String → Bool) : Autoscaler :=
  let policy := (applyOverrides py base overrides).1
  { s with
      stage := .reading policy now
        ⟨policy.streamEngineIds.map (s.fetchEngineBacklog lagKnown)⟩ s.records }

/-- The scan and the decision of a tick. -/
def scanFleet (s : Autoscaler) (policy : ShapePolicy) (now : Rat) (backlog : BacklogSnapshot)
    (nodes : String → List String) : Autoscaler :=
  let fleet := fetchAutoscaleFleet policy nodes s.workers
  let idle := updateIdleState s.idleSince (backlog.allIdle && decide (0 < fleet.total)) now
  let decision := decideScaling policy backlog fleet idle.2
    ((s.blocked.map (·.consecutiveTicks)).getD 0) s.onDemandCooldown
  let stuck := stuckPending policy nodes s.workers now
  { s with
      idleSince := idle.1
      ticks := ⟨now, backlog.allIdle⟩ :: s.ticks
      stage :=
        if stuck = [] then
          .applying policy now fleet ((s.workers.filter (·.managed)).map (·.instanceId))
            decision.action
        else .reaping policy now (stuck.map (·.instanceId)) }

/-- The next stuck worker is terminated, unless EC2 raises. -/
def reap (s : Autoscaler) (policy : ShapePolicy) (now : Rat) (raised : Bool) :
    List String → Autoscaler
  | [] => { s with stage := .waiting }
  | instanceId :: rest =>
      let s := if raised then s else s.terminateGpuWorker instanceId .reaped policy now
      { s with stage := if rest = [] then .waiting else .reaping policy now rest }

/-- A launch that succeeds. -/
def launch (s : Autoscaler) (policy : ShapePolicy) (fleet : FleetSnapshot) (useSpot : Bool)
    (instanceId : String) (launchTime : Rat) : Autoscaler :=
  { s with
      workers := s.workers ++ [{
        instanceId, spot := useSpot, managedBy := "autoscaler", running := false, launchTime
        ours := true, registered := false }]
      usedIds := instanceId :: s.usedIds
      blocked := none
      failedSpot := if useSpot then 0 else s.failedSpot
      launches := ⟨!useSpot, policy, fleet, s.workers, s.failedSpot⟩ :: s.launches
      stage := .waiting }

/-- `_record_launch_failure`. -/
def recordLaunchFailure (s : Autoscaler) (now : Rat) (useSpot quota : Bool) (detail : String) :
    Autoscaler :=
  if useSpot then
    { s with
        blocked := some (writeBlockedState s.blocked
          (if quota then .spotQuota else .spotCapacity) detail now)
        failedSpot := s.failedSpot + 1
        stage := .waiting }
  else { s with onDemandCooldown := true, stage := .waiting }

/-- `_apply_decision` when no launch is needed. -/
def settle (s : Autoscaler) (policy : ShapePolicy) (now : Rat) (fleet : FleetSnapshot)
    (managed : List String) (action : ScaleAction) : Autoscaler :=
  { s with
      blocked := none
      stage :=
        if action = .terminate then
          match terminationTarget fleet managed with
          | none => .waiting
          | some target => .draining policy now fleet target policy.streamEngineIds
        else .waiting }

/-- One look at a stream while the worker is drained. -/
def check (s : Autoscaler) (policy : ShapePolicy) (now : Rat) (fleet : FleetSnapshot)
    (target : String) (expired : Bool) : List String → Autoscaler
  | [] => s
  | engineId :: rest =>
      { s with
          stage :=
            if s.deliveries.countP (fun d => d.engineId = engineId) = 0 then
              .draining policy now fleet target rest
            else if expired then .waiting
            else .draining policy now fleet target policy.streamEngineIds }

/-- The record of an engine of a running worker is written. -/
def register (s : Autoscaler) (base : ShapePolicy) (engineId instanceId : String) : Autoscaler :=
  let records := Function.update s.records engineId (instanceId :: s.records engineId)
  let full := base.fullyIn records instanceId
  { s.updateWorker instanceId fun w => { w with registered := w.registered || full } with
      records := records }

def next (py : Conversions) (base : ShapePolicy) (s : Autoscaler) : AutoscalerAction → Autoscaler
  | .startTick now overrides lagKnown =>
      match s.stage with
      | .waiting => s.startTick py base now overrides lagKnown
      | _ => s
  | .scanFleet =>
      match s.stage with
      | .reading policy now backlog nodes => s.scanFleet policy now backlog nodes
      | _ => s
  | .reap raised =>
      match s.stage with
      | .reaping policy now stuck => s.reap policy now raised stuck
      | _ => s
  | .launchSucceeds instanceId launchTime =>
      match s.stage with
      | .applying policy _ fleet _ action =>
          if action.launches ∧ instanceId ∉ s.usedIds then
            s.launch policy fleet (action = .launch) instanceId launchTime
          else s
      | _ => s
  | .launchFails quota detail =>
      match s.stage with
      | .applying _ now _ _ action =>
          if action.launches then s.recordLaunchFailure now (action = .launch) quota detail else s
      | _ => s
  | .launchLockHeld =>
      match s.stage with
      | .applying _ _ _ _ action => if action.launches then { s with stage := .waiting } else s
      | _ => s
  | .settle =>
      match s.stage with
      | .applying policy now fleet managed action =>
          if action.launches then s else s.settle policy now fleet managed action
      | _ => s
  | .check expired =>
      match s.stage with
      | .draining policy now fleet target unchecked =>
          s.check policy now fleet target expired unchecked
      | _ => s
  | .terminate =>
      match s.stage with
      | .draining policy now fleet target [] =>
          { s.terminateGpuWorker target (.scaledDown fleet) policy now with
              idleSince := none, stage := .waiting }
      | _ => s
  | .enqueue engineId =>
      { s with lag := Function.update s.lag engineId (s.lag engineId + 1) }
  | .deliver d =>
      if 0 < s.lag d.engineId ∧ d.engineId ∈ base.streamEngineIds ∧
          s.workers.any (fun w => w.instanceId = d.owner && w.running) then
        { s with
            lag := Function.update s.lag d.engineId (s.lag d.engineId - 1)
            deliveries := d :: s.deliveries }
      else s
  | .transfer d owner =>
      if d ∈ s.deliveries ∧ s.workers.any (fun w => w.instanceId = owner && w.running) then
        { s with deliveries := { d with owner } :: s.deliveries.erase d }
      else s
  | .acknowledge d => { s with deliveries := s.deliveries.erase d }
  | .runs instanceId => s.updateWorker instanceId fun w => { w with running := true }
  | .register engineId instanceId =>
      if s.workers.any fun w => w.instanceId = instanceId && w.running then
        s.register base engineId instanceId
      else s
  | .lapse engineId instanceId =>
      { s with
          records := Function.update s.records engineId
            ((s.records engineId).filter (· ≠ instanceId)) }
  | .arrives worker =>
      if worker.instanceId ∈ s.usedIds then s
      else
        { s with
            workers := s.workers ++ [{ worker with ours := false, registered := false }]
            usedIds := worker.instanceId :: s.usedIds }
  | .vanishes instanceId => s.removeWorker instanceId
  | .idleExpires => { s with idleSince := none }
  | .blockedExpires => { s with blocked := none }
  | .cooldownExpires => { s with onDemandCooldown := false }

/-- No tick has run: nothing is stored, and the workers are not the autoscaler's. -/
structure Fresh (base : ShapePolicy) (s : Autoscaler) : Prop where
  waiting : s.stage = .waiting
  ids : (s.workers.map (·.instanceId)).Nodup
  used : ∀ w ∈ s.workers, w.instanceId ∈ s.usedIds
  recorded : ∀ engineId instanceId, instanceId ∈ s.records engineId → instanceId ∈ s.usedIds
  registered : ∀ w ∈ s.workers, base.fullyIn s.records w.instanceId = true → w.registered = true
  streams : ∀ d ∈ s.deliveries, d.engineId ∈ base.streamEngineIds
  others : ∀ w ∈ s.workers, w.ours = false
  idleSince : s.idleSince = none
  blocked : s.blocked = none
  launches : s.launches = []
  terminations : s.terminations = []

end Autoscaler

end Dalston.Infra
