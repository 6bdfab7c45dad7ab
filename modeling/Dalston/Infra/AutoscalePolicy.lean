import Dalston.Model.Json

/-!
# The decisions of the GPU autoscaler

The policy of a shape is read from a mapping, is overridden by values that the console
has stored, and with a snapshot of queues and fleet gives one action for a tick.

## Implementation notes

What Python prints, and how it reads a whole number from a text, are arguments. A
decision carries the values that its reason is written with, not the text.
-/

namespace Dalston.Infra

open Foundation Model

/-- The conversions of Python that the policy relies on. -/
structure Conversions where
  /-- `str` of a value that is no text. -/
  str : Json → String
  repr : Config → String
  reprValue : Json → String
  /-- `int` of a text, or the text of the `ValueError`. -/
  int : String → Except String Int
  /-- The text of the `TypeError` of `int`. -/
  intTypeError : Json → String
  /-- The text of the `TypeError` of an iteration. -/
  notIterable : Json → String

structure PolicyError where
  text : String
  deriving DecidableEq

structure EngineBacklog where
  engineId : String
  lag : Nat
  pending : Nat

def EngineBacklog.backlog (e : EngineBacklog) : Nat := e.lag + e.pending

def EngineBacklog.idle (e : EngineBacklog) : Bool := e.lag = 0 && e.pending = 0

structure BacklogSnapshot where
  engines : List EngineBacklog

def BacklogSnapshot.maxBacklog (b : BacklogSnapshot) : Nat :=
  (b.engines.map EngineBacklog.backlog).foldr max 0

def BacklogSnapshot.allIdle (b : BacklogSnapshot) : Bool := b.engines.all EngineBacklog.idle

structure FleetSnapshot where
  liveInstanceIds : List String
  pendingInstanceIds : List String
  spotLiveInstanceIds : List String
  spotPendingInstanceIds : List String
  deriving DecidableEq

namespace FleetSnapshot

variable (f : FleetSnapshot)

def live : Nat := f.liveInstanceIds.length

def pending : Nat := f.pendingInstanceIds.length

def total : Nat := f.live + f.pending

def spotLive : Nat := f.spotLiveInstanceIds.length

def onDemandLive : Int := f.live - f.spotLive

def onDemandPending : Int := f.pending - f.spotPendingInstanceIds.length

def onDemandTotal : Int := f.onDemandLive + f.onDemandPending

end FleetSnapshot

def defaultGpuTypePreference : List String := ["g4dn.xlarge", "g6.xlarge", "g5.xlarge"]

structure ShapePolicy where
  name : String
  engines : List String
  streamEngineIds : List String
  tasksPerInstance : Int
  minInstances : Int
  maxInstances : Int
  scaleDownAfterS : Int
  drainWaitS : Int
  bootTimeoutS : Int
  gpuTypePreference : List String
  fallbackToOnDemand : Bool
  maxOnDemand : Int
  deriving DecidableEq

/-- Iterating over a value, unless that is a `TypeError`. -/
def iterate : Json → Option (List Json)
  | .arr items => some items
  | .str s => some (s.toList.map fun c => .str (String.singleton c))
  | .obj fields => some (fields.map fun kv => .str kv.1)
  | _ => none

def Conversions.text (py : Conversions) : Json → String
  | .str s => s
  | value => py.str value

/-- `tuple(str(e) for e in value)`. -/
def Conversions.texts (py : Conversions) (value : Json) : Option (List String) :=
  (iterate value).map fun items => items.map py.text

def truncate (q : Rat) : Int := if q < 0 then -⌊-q⌋ else ⌊q⌋

/-- `int(value)`. -/
def Conversions.toInt (py : Conversions) : Json → Except String Int
  | .num q => .ok (truncate q)
  | .bool b => .ok (if b then 1 else 0)
  | .str s => py.int s
  | value => .error (py.intTypeError value)

/-- `int(d.get(key, default))`. -/
def threshold (py : Conversions) (d : Config) (key : String) (default : Int) :
    Except String Int :=
  match d.get? key with
  | none => .ok default
  | some value => py.toInt value

def gpuTypes (py : Conversions) (d : Config) : Except String (List String) :=
  match d.get? "gpu_type_preference" with
  | none => .ok defaultGpuTypePreference
  | some value =>
      match py.texts value with
      | some texts => .ok texts
      | none => .error (py.notIterable value)

/-- `"+".join(sorted(engines))`. -/
def shapeTagValue (engines : List String) : String :=
  "+".intercalate (engines.insertionSort fun a b => a ≤ b)

theorem bind_eq_ok {A B : Type} {x : Except String A} {f : A → Except String B} {b : B}
    (h : (x >>= f) = .ok b) : ∃ a, x = .ok a ∧ f a = .ok b := by
  cases x with
  | error _ => cases h
  | ok a => exact ⟨a, rfl, h⟩

namespace ShapePolicy

/-- The checks that follow the construction of the policy. -/
def check (policy : ShapePolicy) : Except PolicyError ShapePolicy :=
  let shape := "shape '" ++ policy.name ++ "': "
  if policy.tasksPerInstance < 1 then .error ⟨shape ++ "tasks_per_instance must be >= 1"⟩
  else if policy.bootTimeoutS < 300 then
    .error ⟨shape ++ "boot_timeout_s must be >= 300 (got " ++ toString policy.bootTimeoutS ++
      "); workers need minutes to boot, join Tailscale, and download models"⟩
  else if policy.scaleDownAfterS < 0 ∨ policy.drainWaitS < 0 then
    .error ⟨shape ++ "scale_down_after_s and drain_wait_s must be >= 0"⟩
  else if ¬ (0 ≤ policy.minInstances ∧ policy.minInstances ≤ policy.maxInstances) then
    .error ⟨shape ++ "need 0 <= min_instances <= max_instances (got " ++
      toString policy.minInstances ++ "/" ++ toString policy.maxInstances ++ ")"⟩
  else if policy.gpuTypePreference = [] then .error ⟨shape ++ "gpu_type_preference is empty"⟩
  else if policy.maxOnDemand < 0 then .error ⟨shape ++ "max_on_demand must be >= 0"⟩
  else .ok policy

/-- The thresholds of the policy, or the text of the first error. -/
def thresholds (py : Conversions) (d : Config) (name : String) (engines streamEngineIds : List String)
    (fallback : Bool) : Except String ShapePolicy := do
  let tasksPerInstance ← threshold py d "tasks_per_instance" 20
  let minInstances ← threshold py d "min_instances" 0
  let maxInstances ← threshold py d "max_instances" 5
  let scaleDownAfterS ← threshold py d "scale_down_after_s" 2100
  let drainWaitS ← threshold py d "drain_wait_s" 60
  let bootTimeoutS ← threshold py d "boot_timeout_s" 1800
  let gpuTypePreference ← gpuTypes py d
  let maxOnDemand ← threshold py d "max_on_demand" 1
  return {
    name, engines, streamEngineIds, tasksPerInstance, minInstances, maxInstances, scaleDownAfterS
    drainWaitS, bootTimeoutS, gpuTypePreference, fallbackToOnDemand := fallback, maxOnDemand }

/-- `d.get("name") or "+".join(sorted(engines))`, as a text. -/
def nameOf (py : Conversions) (d : Config) (engines : List String) : String :=
  match d.get? "name" with
  | none => shapeTagValue engines
  | some value => if value.truthy then py.text value else shapeTagValue engines

/-- A policy whose engine lists have been read. -/
def fromEngines (py : Conversions) (d : Config) (engines streamEngineIds : List String) :
    Except PolicyError ShapePolicy :=
  if engines = [] ∨ streamEngineIds = [] then
    .error ⟨"shape has empty engines/stream_engine_ids: " ++ py.repr d⟩
  else
    let name := nameOf py d engines
    let withFallback (fallback : Bool) : Except PolicyError ShapePolicy :=
      match thresholds py d name engines streamEngineIds fallback with
      | .error exc => .error ⟨"shape '" ++ name ++ "' has a non-numeric threshold: " ++ exc⟩
      | .ok policy => policy.check
    match d.get? "fallback_to_on_demand" with
    | none => withFallback false
    | some (.bool fallback) => withFallback fallback
    | some raw =>
        .error ⟨"shape '" ++ name ++ "': fallback_to_on_demand must be a YAML boolean " ++
          "(true/false), got " ++ py.reprValue raw ++ "; refusing to infer intent " ++
          "for a setting that launches paid instances"⟩

def fromDict (py : Conversions) (d : Config) : Except PolicyError ShapePolicy :=
  match (d.get? "engines").bind py.texts, (d.get? "stream_engine_ids").bind py.texts with
  | some engines, some streamEngineIds => fromEngines py d engines streamEngineIds
  | _, _ => .error ⟨"shape missing engines/stream_engine_ids: " ++ py.repr d⟩

end ShapePolicy

/-- What the checks of a policy ensure. -/
structure ShapePolicy.Sound (policy : ShapePolicy) : Prop where
  streams : policy.streamEngineIds ≠ []
  tasks : 1 ≤ policy.tasksPerInstance
  boot : 300 ≤ policy.bootTimeoutS
  cooldown : 0 ≤ policy.scaleDownAfterS
  drain : 0 ≤ policy.drainWaitS
  nonneg : 0 ≤ policy.minInstances
  limits : policy.minInstances ≤ policy.maxInstances
  onDemand : 0 ≤ policy.maxOnDemand

namespace ShapePolicy

variable {py : Conversions} {d : Config} {policy : ShapePolicy}

theorem sound_of_check {checked : ShapePolicy} (h : policy.check = .ok checked)
    (hstreams : policy.streamEngineIds ≠ []) : checked = policy ∧ policy.Sound := by
  unfold check at h
  dsimp only at h
  split_ifs at h with htasks hboot hwaits hlimits hgpu hpaid
  obtain rfl := Except.ok.inj h
  obtain ⟨hcooldown, hdrain⟩ := not_or.mp hwaits
  obtain ⟨hnonneg, hlimits⟩ := hlimits
  exact ⟨rfl, hstreams, by omega, by omega, by omega, by omega, hnonneg, hlimits, by omega⟩

theorem thresholds_eq_ok {name : String} {engines streamEngineIds : List String} {fallback : Bool}
    (h : thresholds py d name engines streamEngineIds fallback = .ok policy) :
    policy.name = name ∧ policy.engines = engines ∧ policy.streamEngineIds = streamEngineIds ∧
      policy.fallbackToOnDemand = fallback ∧
      threshold py d "max_on_demand" 1 = .ok policy.maxOnDemand := by
  unfold thresholds at h
  obtain ⟨_, -, h⟩ := bind_eq_ok h
  obtain ⟨_, -, h⟩ := bind_eq_ok h
  obtain ⟨_, -, h⟩ := bind_eq_ok h
  obtain ⟨_, -, h⟩ := bind_eq_ok h
  obtain ⟨_, -, h⟩ := bind_eq_ok h
  obtain ⟨_, -, h⟩ := bind_eq_ok h
  obtain ⟨_, -, h⟩ := bind_eq_ok h
  obtain ⟨maxOnDemand, hmax, h⟩ := bind_eq_ok h
  cases h
  exact ⟨rfl, rfl, rfl, rfl, hmax⟩

/-- What an accepted mapping says. -/
theorem fromDict_eq_ok (h : fromDict py d = .ok policy) :
    policy.Sound ∧ ∃ engines streamEngineIds,
      (d.get? "engines").bind py.texts = some engines ∧
      (d.get? "stream_engine_ids").bind py.texts = some streamEngineIds ∧
      policy.name = nameOf py d engines ∧ policy.engines = engines ∧
      policy.streamEngineIds = streamEngineIds ∧
      (d.get? "fallback_to_on_demand" = none ∧ policy.fallbackToOnDemand = false ∨
        d.get? "fallback_to_on_demand" = some (.bool policy.fallbackToOnDemand)) ∧
      threshold py d "max_on_demand" 1 = .ok policy.maxOnDemand := by
  unfold fromDict at h
  split at h
  case h_2 => cases h
  case h_1 engines streamEngineIds hengines hstreams =>
    unfold fromEngines at h
    split at h
    case isTrue => cases h
    case isFalse hnonempty =>
      dsimp only at h
      have haccepted : ∀ fallback,
          (match thresholds py d (nameOf py d engines) engines streamEngineIds fallback with
            | .error exc => Except.error (⟨"shape '" ++ nameOf py d engines ++
                "' has a non-numeric threshold: " ++ exc⟩ : PolicyError)
            | .ok policy => policy.check) = .ok policy →
          policy.Sound ∧
            thresholds py d (nameOf py d engines) engines streamEngineIds fallback = .ok policy := by
        intro fallback haccepted
        split at haccepted
        case h_1 => cases haccepted
        case h_2 hthresholds =>
          obtain ⟨-, -, hstreams', -⟩ := thresholds_eq_ok hthresholds
          obtain ⟨rfl, hsound⟩ := sound_of_check haccepted
            (hstreams' ▸ (not_or.mp hnonempty).2)
          exact ⟨hsound, hthresholds⟩
      split at h
      case h_1 hnone =>
        obtain ⟨hsound, hthresholds⟩ := haccepted false h
        obtain ⟨hname, hengines', hstreams', hfallback, hmax⟩ := thresholds_eq_ok hthresholds
        exact ⟨hsound, engines, streamEngineIds, hengines, hstreams, hname, hengines', hstreams',
          Or.inl ⟨hnone, hfallback⟩, hmax⟩
      case h_2 fallback hbool =>
        obtain ⟨hsound, hthresholds⟩ := haccepted fallback h
        obtain ⟨hname, hengines', hstreams', hfallback, hmax⟩ := thresholds_eq_ok hthresholds
        exact ⟨hsound, engines, streamEngineIds, hengines, hstreams, hname, hengines', hstreams',
          Or.inr (hfallback ▸ hbool), hmax⟩
      case h_3 => cases h

end ShapePolicy

def overrideKeys : List String :=
  ["tasks_per_instance", "min_instances", "max_instances", "scale_down_after_s"]

/-- The mapping that `apply_overrides` rebuilds the policy from. -/
def ShapePolicy.toDict (policy : ShapePolicy) : Config :=
  [("name", .str policy.name), ("engines", .arr (policy.engines.map .str)),
    ("stream_engine_ids", .arr (policy.streamEngineIds.map .str)),
    ("tasks_per_instance", .num policy.tasksPerInstance),
    ("min_instances", .num policy.minInstances), ("max_instances", .num policy.maxInstances),
    ("scale_down_after_s", .num policy.scaleDownAfterS), ("drain_wait_s", .num policy.drainWaitS),
    ("boot_timeout_s", .num policy.bootTimeoutS),
    ("gpu_type_preference", .arr (policy.gpuTypePreference.map .str)),
    ("fallback_to_on_demand", .bool policy.fallbackToOnDemand),
    ("max_on_demand", .num policy.maxOnDemand)]

/-- The policy with the overrides, the overridden keys, and the error if they were discarded. -/
def applyOverrides (py : Conversions) (policy : ShapePolicy) (overrides : Dict String) :
    ShapePolicy × List String × Option String :=
  let applied := overrideKeys.filter overrides.contains
  if applied = [] then (policy, [], none)
  else
    let merged := applied.foldl
      (fun merged key => merged.set key (.str (overrides.getD key ""))) policy.toDict
    match ShapePolicy.fromDict py merged with
    | .ok effective => (effective, applied, none)
    | .error exc => (policy, [], some exc.text)

/-- The policy is as valid as another and differs from it only where it may be overridden. -/
structure ShapePolicy.Overrides (effective policy : ShapePolicy) : Prop where
  sound : effective.Sound
  engines : effective.engines = policy.engines
  streamEngineIds : effective.streamEngineIds = policy.streamEngineIds
  fallbackToOnDemand : effective.fallbackToOnDemand = policy.fallbackToOnDemand
  maxOnDemand : effective.maxOnDemand = policy.maxOnDemand

section Overrides

variable {py : Conversions} {policy : ShapePolicy}

theorem truncate_intCast (n : Int) : truncate (n : Rat) = n := by
  unfold truncate
  split
  · rw [← Int.cast_neg, Int.floor_intCast, neg_neg]
  · exact Int.floor_intCast n

theorem texts_map (py : Conversions) (texts : List String) :
    py.texts (.arr (texts.map .str)) = some texts := by
  have hmap : (texts.map Json.str).map py.text = texts := by
    rw [List.map_map]
    exact List.map_id texts
  exact congrArg some hmap

theorem get?_overridden (overrides : Dict String) {keys : List String} {key : String}
    (h : key ∉ keys) (d : Config) :
    Dict.get? (keys.foldl (fun merged key => merged.set key (.str (overrides.getD key ""))) d) key =
      d.get? key := by
  induction keys generalizing d with
  | nil => rfl
  | cons other keys ih =>
      obtain ⟨hne, hkeys⟩ := not_or.mp (mt List.mem_cons.mpr h)
      rw [List.foldl_cons, ih hkeys, Dict.get?_set_ne]
      exact fun heq => hne heq.symm

/-- Overrides give a valid policy that spends as much on on-demand instances as before. -/
theorem applyOverrides_overrides (h : policy.Sound) (overrides : Dict String) :
    (applyOverrides py policy overrides).1.Overrides policy := by
  have hself : policy.Overrides policy := ⟨h, rfl, rfl, rfl, rfl⟩
  unfold applyOverrides
  dsimp only
  split
  case isTrue => exact hself
  case isFalse =>
    split
    case h_2 => exact hself
    case h_1 effective hfromDict =>
      obtain ⟨hsound, engines, streamEngineIds, hengines, hstreams, -, hengines', hstreams',
        hfallback, hmax⟩ := ShapePolicy.fromDict_eq_ok hfromDict
      have hkept : ∀ key, key ∉ overrideKeys → ∀ d : Config,
          Dict.get? ((overrideKeys.filter overrides.contains).foldl
            (fun merged key => merged.set key (.str (overrides.getD key ""))) d) key = d.get? key :=
        fun key hkey => get?_overridden overrides fun hmem => hkey (List.mem_filter.mp hmem).1
      constructor
      case sound => exact hsound
      case engines =>
        rw [hkept "engines" (by decide)] at hengines
        rw [hengines']
        exact Option.some.inj (hengines.symm.trans (texts_map py policy.engines))
      case streamEngineIds =>
        rw [hkept "stream_engine_ids" (by decide)] at hstreams
        rw [hstreams']
        exact Option.some.inj (hstreams.symm.trans (texts_map py policy.streamEngineIds))
      case fallbackToOnDemand =>
        rw [hkept "fallback_to_on_demand" (by decide)] at hfallback
        obtain ⟨hnone, -⟩ | hsome := hfallback
        · cases hnone
        · exact (Json.bool.inj (Option.some.inj hsome)).symm
      case maxOnDemand =>
        unfold threshold at hmax
        rw [hkept "max_on_demand" (by decide)] at hmax
        have hint : py.toInt (.num policy.maxOnDemand) = .ok effective.maxOnDemand := hmax
        rw [Conversions.toInt, truncate_intCast] at hint
        exact (Except.ok.inj hint).symm

end Overrides

inductive ScaleAction
  | none
  | launch
  | launchOnDemand
  | terminate
  deriving DecidableEq

def ScaleAction.launches : ScaleAction → Bool
  | launch | launchOnDemand => true
  | _ => false

def onDemandFallbackBlockedTicks : Nat := 5

/-- The values that the reason of a decision is written with. -/
inductive Reason
  | singleFlight (pending : Nat)
  | spotBlocked (blockedTicks : Nat) (onDemandTotal maxOnDemand : Int)
  | backlog (maxBacklog : Nat) (desired : Int) (total : Nat)
  | cooldownStarts
  | idleLongEnough (idleS : Rat) (scaleDownAfterS : Int)
  | idleTooShort (idleS : Rat) (scaleDownAfterS : Int)
  | atDesiredCapacity

structure ScaleDecision where
  shape : String
  action : ScaleAction
  desired : Int
  live : Nat
  pending : Nat
  maxBacklog : Nat
  reason : Reason
  backlogs : List EngineBacklog

/-- `math.ceil(max_backlog / tasks_per_instance)`, within the limits. -/
def desiredInstances (policy : ShapePolicy) (maxBacklog : Nat) : Int :=
  let raw := if 0 < maxBacklog then ⌈(maxBacklog : Rat) / policy.tasksPerInstance⌉ else 0
  max policy.minInstances (min policy.maxInstances raw)

def decideAction (policy : ShapePolicy) (backlog : BacklogSnapshot) (fleet : FleetSnapshot)
    (idleSinceS : Option Rat) (blockedTicks : Nat) (onDemandCooldown : Bool) :
    ScaleAction × Reason :=
  let desired := desiredInstances policy backlog.maxBacklog
  if fleet.total < desired then
    if 0 < fleet.pending then (.none, .singleFlight fleet.pending)
    else if policy.fallbackToOnDemand ∧ onDemandFallbackBlockedTicks ≤ blockedTicks ∧
        fleet.onDemandTotal < policy.maxOnDemand ∧ onDemandCooldown = false then
      (.launchOnDemand, .spotBlocked blockedTicks fleet.onDemandTotal policy.maxOnDemand)
    else (.launch, .backlog backlog.maxBacklog desired fleet.total)
  else if desired < fleet.live ∧ backlog.allIdle then
    match idleSinceS with
    | none => (.none, .cooldownStarts)
    | some idleS =>
        if (policy.scaleDownAfterS : Rat) ≤ idleS then
          (.terminate, .idleLongEnough idleS policy.scaleDownAfterS)
        else (.none, .idleTooShort idleS policy.scaleDownAfterS)
  else (.none, .atDesiredCapacity)

/-- `decide`. -/
def decideScaling (policy : ShapePolicy) (backlog : BacklogSnapshot) (fleet : FleetSnapshot)
    (idleSinceS : Option Rat) (blockedTicks : Nat) (onDemandCooldown : Bool) : ScaleDecision :=
  let (action, reason) :=
    decideAction policy backlog fleet idleSinceS blockedTicks onDemandCooldown
  { shape := policy.name
    action
    desired := desiredInstances policy backlog.maxBacklog
    live := fleet.live
    pending := fleet.pending
    maxBacklog := backlog.maxBacklog
    reason
    backlogs := backlog.engines }

section Decisions

variable {policy : ShapePolicy} {backlog : BacklogSnapshot} {fleet : FleetSnapshot}
  {idleSinceS : Option Rat} {blockedTicks : Nat} {onDemandCooldown : Bool}

theorem minInstances_le_desired (policy : ShapePolicy) (maxBacklog : Nat) :
    policy.minInstances ≤ desiredInstances policy maxBacklog :=
  le_max_left _ _

theorem desired_le_maxInstances (h : policy.Sound) (maxBacklog : Nat) :
    desiredInstances policy maxBacklog ≤ policy.maxInstances :=
  max_le h.limits (min_le_left _ _)

/-- A launch is decided for a fleet without a booting instance and below its maximum. -/
theorem decideAction_launches (h : policy.Sound)
    (hlaunches : (decideAction policy backlog fleet idleSinceS blockedTicks
      onDemandCooldown).1.launches = true) :
    fleet.pending = 0 ∧ (fleet.total : Int) < policy.maxInstances := by
  unfold decideAction at hlaunches
  dsimp only at hlaunches
  split at hlaunches
  case isTrue hdesired =>
    split at hlaunches
    case isTrue => cases hlaunches
    case isFalse hpending =>
      exact ⟨by omega, hdesired.trans_le (desired_le_maxInstances h _)⟩
  case isFalse =>
    split at hlaunches
    case isFalse => cases hlaunches
    case isTrue =>
      split at hlaunches
      case h_1 => cases hlaunches
      case h_2 => split at hlaunches <;> cases hlaunches

theorem decideAction_onDemand (h : (decideAction policy backlog fleet idleSinceS blockedTicks
    onDemandCooldown).1 = .launchOnDemand) :
    policy.fallbackToOnDemand = true ∧ onDemandFallbackBlockedTicks ≤ blockedTicks ∧
      fleet.onDemandTotal < policy.maxOnDemand := by
  unfold decideAction at h
  dsimp only at h
  split at h
  case isTrue =>
    split at h
    case isTrue => cases h
    case isFalse =>
      split at h
      case isTrue hpaid => exact ⟨hpaid.1, hpaid.2.1, hpaid.2.2.1⟩
      case isFalse => cases h
  case isFalse =>
    split at h
    case isFalse => cases h
    case isTrue =>
      split at h
      case h_1 => cases h
      case h_2 => split at h <;> cases h

/-- A termination is decided for an idle fleet above its minimum after the cooldown. -/
theorem decideAction_terminate (h : (decideAction policy backlog fleet idleSinceS blockedTicks
    onDemandCooldown).1 = .terminate) :
    policy.minInstances < fleet.live ∧ backlog.allIdle = true ∧
      ∃ idleS, idleSinceS = some idleS ∧ (policy.scaleDownAfterS : Rat) ≤ idleS := by
  unfold decideAction at h
  dsimp only at h
  split at h
  case isTrue => split_ifs at h
  case isFalse =>
    split at h
    case isFalse => cases h
    case isTrue hidle =>
      split at h
      case h_1 => cases h
      case h_2 idleS =>
        split at h
        case isTrue hcooldown =>
          exact ⟨(minInstances_le_desired policy _).trans_lt hidle.1, hidle.2, idleS, rfl, hcooldown⟩
        case isFalse => cases h

end Decisions

end Dalston.Infra
