import Dalston.Infra.AutoscaleBounds

/-!
# The workers that the GPU autoscaler terminates

A worker that is drained has its streams found empty one after the other before it is
terminated, and a worker that is reaped is one that a scan has found without some of its
registry records. Neither look is repeated at the termination.
-/

namespace Dalston.Infra

open Foundation Model

/-- The worker had acknowledged all it was delivered, and was reaped only if it had never had a
record of every engine. -/
structure Termination.Unused (t : Termination) : Prop where
  inFlight : t.inFlight = []
  reaped : t.cause = .reaped → t.worker.registered = false

instance (t : Termination) : Decidable t.Unused :=
  decidable_of_iff (t.inFlight = [] ∧ (t.cause = .reaped → t.worker.registered = false))
    ⟨fun h => ⟨h.1, h.2⟩, fun h => ⟨h.inFlight, h.reaped⟩⟩

namespace Autoscaler

/-- The worker is about to be reaped. -/
def reaps (s : Autoscaler) (instanceId : String) : Bool :=
  match s.stage with
  | .reaping _ _ stuck => instanceId ∈ stuck
  | _ => false

/-- The worker is about to be terminated, and the engine will not be looked at before. -/
def doomed (s : Autoscaler) (engineId instanceId : String) : Bool :=
  match s.stage with
  | .reaping _ _ stuck => instanceId ∈ stuck
  | .draining _ _ _ target unchecked => instanceId = target ∧ engineId ∉ unchecked
  | _ => false

/-- A worker past its boot timeout that has once been registered has all its records, and one that
has not holds no task. -/
def Punctual (s : Autoscaler) : TickStage → Prop
  | .reading policy now _ nodes =>
      ∀ w ∈ s.workers, w.managed = true → (policy.bootTimeoutS : Rat) ≤ now - w.launchTime →
        (w.registered = true → policy.isLive nodes w = true) ∧
          (w.registered = false → ∀ d ∈ s.deliveries, d.owner ≠ w.instanceId)
  | _ => True

instance (s : Autoscaler) : ∀ stage, Decidable (s.Punctual stage)
  | .reading policy now _ nodes =>
      inferInstanceAs (Decidable (∀ w ∈ s.workers, w.managed = true →
        (policy.bootTimeoutS : Rat) ≤ now - w.launchTime →
          (w.registered = true → policy.isLive nodes w = true) ∧
            (w.registered = false → ∀ d ∈ s.deliveries, d.owner ≠ w.instanceId)))
  | .waiting | .reaping .. | .applying .. | .draining .. => isTrue trivial

/-- Workers past their boot timeout are punctual when a tick scans the fleet, and no task is
delivered to a worker that is about to be terminated, nor is its registration completed. -/
def Undisturbed (base : ShapePolicy) (s : Autoscaler) : AutoscalerAction → Prop
  | .scanFleet => s.Punctual s.stage
  | .deliver d => s.doomed d.engineId d.owner = false
  | .transfer d owner => s.doomed d.engineId owner = false
  | .register engineId instanceId => s.reaps instanceId = true →
      base.fullyIn (Function.update s.records engineId (instanceId :: s.records engineId))
        instanceId = false
  | _ => True

instance (base : ShapePolicy) (s : Autoscaler) : ∀ action, Decidable (s.Undisturbed base action)
  | .scanFleet => inferInstanceAs (Decidable (s.Punctual s.stage))
  | .deliver d => inferInstanceAs (Decidable (s.doomed d.engineId d.owner = false))
  | .transfer d owner => inferInstanceAs (Decidable (s.doomed d.engineId owner = false))
  | .register engineId instanceId =>
      inferInstanceAs (Decidable (s.reaps instanceId = true →
        base.fullyIn (Function.update s.records engineId (instanceId :: s.records engineId))
          instanceId = false))
  | .startTick .. | .reap _ | .launchSucceeds .. | .launchFails .. | .launchLockHeld | .settle
  | .check _ | .terminate | .enqueue _ | .acknowledge _ | .runs _ | .lapse .. | .arrives _
  | .vanishes _ | .idleExpires | .blockedExpires | .cooldownExpires => isTrue trivial

/-- What is known of the workers that are about to be terminated. -/
def Guards (base : ShapePolicy) (s : Autoscaler) : TickStage → Prop
  | .waiting | .reading .. => True
  | .reaping _ _ stuck => ∀ instanceId ∈ stuck, (∀ d ∈ s.deliveries, d.owner ≠ instanceId) ∧
      ∀ w ∈ s.workers, w.instanceId = instanceId → w.registered = false
  | .applying policy .. => policy.streamEngineIds = base.streamEngineIds
  | .draining policy _ _ target unchecked => policy.streamEngineIds = base.streamEngineIds ∧
      ∀ d ∈ s.deliveries, d.owner = target → d.engineId ∈ unchecked

structure Guarded (base : ShapePolicy) (s : Autoscaler) : Prop where
  orderly : s.Orderly base
  streams : ∀ d ∈ s.deliveries, d.engineId ∈ base.streamEngineIds
  guards : s.Guards base s.stage
  unused : ∀ t ∈ s.terminations, t.Unused

variable {base : ShapePolicy} {s s' : Autoscaler}

theorem Fresh.guarded (hbase : base.Sound) (h : s.Fresh base) : s.Guarded base where
  orderly := h.orderly hbase
  streams := h.streams
  guards := by
    rw [h.waiting]
    trivial
  unused := by
    rw [h.terminations]
    exact List.forall_mem_nil _

/-- Nothing is delivered to a worker that is about to be terminated, and none is registered. -/
theorem Guarded.environment (h : s.Guarded base) (horderly : s'.Orderly base)
    (hstage : s'.stage = s.stage) (hterminations : s'.terminations = s.terminations)
    (hdeliveries : ∀ d ∈ s'.deliveries, d ∈ s.deliveries ∨
      d.engineId ∈ base.streamEngineIds ∧ s.doomed d.engineId d.owner = false)
    (hworkers : ∀ w' ∈ s'.workers, w'.registered = true →
      (∃ w ∈ s.workers, w.instanceId = w'.instanceId ∧ w.registered = true) ∨
        s.reaps w'.instanceId = false) : s'.Guarded base where
  orderly := horderly
  streams d hd := by
    obtain hold | ⟨hstream, -⟩ := hdeliveries d hd
    · exact h.streams d hold
    · exact hstream
  guards := by
    have hguards := h.guards
    unfold doomed at hdeliveries
    unfold reaps at hworkers
    rw [hstage]
    cases hcase : s.stage with
    | waiting => trivial
    | reading => trivial
    | applying policy now fleet managed action =>
        rw [hcase] at hguards
        exact hguards
    | reaping policy now stuck =>
        rw [hcase] at hguards hdeliveries hworkers
        intro instanceId hmem
        obtain ⟨hnone, hunregistered⟩ := hguards instanceId hmem
        constructor
        · intro d hd
          obtain hold | ⟨-, hsafe⟩ := hdeliveries d hd
          · exact hnone d hold
          · rintro rfl
            exact of_decide_eq_false hsafe hmem
        · intro w' hw' hid
          by_contra hregistered
          obtain ⟨w, hw, heq, hold⟩ | hsafe :=
            hworkers w' hw' (Bool.eq_true_of_not_eq_false hregistered)
          · rw [hunregistered w hw (heq.trans hid)] at hold
            cases hold
          · exact of_decide_eq_false hsafe (hid ▸ hmem)
    | draining policy now fleet target unchecked =>
        rw [hcase] at hguards hdeliveries
        refine ⟨hguards.1, fun d hd howner => ?_⟩
        obtain hold | ⟨-, hsafe⟩ := hdeliveries d hd
        · exact hguards.2 d hold howner
        · by_contra hchecked
          exact of_decide_eq_false hsafe ⟨howner, hchecked⟩
  unused := by
    rw [hterminations]
    exact h.unused

/-- The tick comes to another stage. -/
theorem Guarded.moves (h : s.Guarded base) (horderly : s'.Orderly base)
    (hdeliveries : s'.deliveries = s.deliveries) (hguards : s'.Guards base s'.stage)
    (hterminations : s'.terminations = s.terminations) : s'.Guarded base where
  orderly := horderly
  streams := by
    rw [hdeliveries]
    exact h.streams
  guards := hguards
  unused := by
    rw [hterminations]
    exact h.unused

theorem Guarded.scanFleet (h : s.Guarded base) {policy : ShapePolicy} {now : Rat}
    {backlog : BacklogSnapshot} {nodes : String → List String}
    (hstage : s.stage = .reading policy now backlog nodes)
    (hpunctual : s.Punctual s.stage) :
    (s.scanFleet policy now backlog nodes).Guarded base := by
  have hstands := h.orderly.stands
  rw [hstage] at hstands hpunctual
  refine h.moves (h.orderly.scanFleet hstands) rfl ?_ rfl
  unfold Autoscaler.scanFleet
  dsimp only
  split
  case isTrue => exact hstands.1.streamEngineIds
  case isFalse =>
    intro instanceId hmem
    obtain ⟨w, hw, rfl⟩ := List.mem_map.mp hmem
    obtain ⟨hpending, haged⟩ := List.mem_filter.mp hw
    obtain ⟨hfound, hnotLive⟩ := List.mem_filter.mp hpending
    have hworker : w ∈ s.workers := (discover_perm s.workers).mem_iff.mp hfound
    obtain ⟨hmanaged, hold⟩ := Bool.and_eq_true_iff.mp haged
    obtain ⟨hlive, hnone⟩ := hpunctual w hworker hmanaged (of_decide_eq_true hold)
    have hunregistered : w.registered = false := by
      by_contra hregistered
      rw [hlive (Bool.eq_true_of_not_eq_false hregistered)] at hnotLive
      cases hnotLive
    refine ⟨hnone hunregistered, fun other hother heq => ?_⟩
    have hsame := List.inj_on_of_nodup_map h.orderly.ids hother hworker heq
    rw [hsame]
    exact hunregistered

/-- A worker without a delivered task is terminated. -/
theorem Guarded.terminateGpuWorker (h : s.Guarded base) {instanceId : String} {cause : Cause}
    {policy : ShapePolicy} {now : Rat} (hnone : ∀ d ∈ s.deliveries, d.owner ≠ instanceId)
    (hreaped : cause = .reaped → ∀ w ∈ s.workers, w.instanceId = instanceId →
      w.registered = false) :
    ∀ t ∈ (s.terminateGpuWorker instanceId cause policy now).terminations, t.Unused := by
  unfold Autoscaler.terminateGpuWorker
  split
  case h_1 => exact h.unused
  case h_2 worker hfind =>
    refine List.forall_mem_cons.mpr ⟨⟨?_, ?_⟩, h.unused⟩
    · exact List.filter_eq_nil_iff.mpr fun d hd howner => hnone d hd (of_decide_eq_true howner)
    · intro hcause
      exact hreaped hcause worker (List.mem_of_find?_eq_some hfind)
        (by simpa using List.find?_some hfind)

theorem Guarded.reap (h : s.Guarded base) {policy : ShapePolicy} {now : Rat} (raised : Bool)
    {stuck : List String} (hstage : s.stage = .reaping policy now stuck) :
    (s.reap policy now raised stuck).Guarded base := by
  have hguards := h.guards
  rw [hstage] at hguards
  have horderly := h.orderly.reap policy now raised stuck
  cases stuck with
  | nil => exact h.moves horderly rfl trivial rfl
  | cons instanceId rest =>
      obtain ⟨⟨hnone, hunregistered⟩, hrest⟩ := List.forall_mem_cons.mp hguards
      have hnext : ∀ s' : Autoscaler,
          (∀ other ∈ rest, (∀ d ∈ s'.deliveries, d.owner ≠ other) ∧
            ∀ w ∈ s'.workers, w.instanceId = other → w.registered = false) →
          s'.Guards base (if rest = [] then .waiting else .reaping policy now rest) := by
        intro s' hrest'
        split
        · trivial
        · exact hrest'
      cases raised with
      | true => exact h.moves horderly rfl (hnext _ hrest) rfl
      | false =>
          have hdeliveries : (s.terminateGpuWorker instanceId .reaped policy now).deliveries =
              s.deliveries := by
            unfold Autoscaler.terminateGpuWorker
            split <;> rfl
          have hworkers : ∀ w ∈ (s.terminateGpuWorker instanceId .reaped policy now).workers,
              w ∈ s.workers := by
            unfold Autoscaler.terminateGpuWorker
            split
            · exact fun _ hw => hw
            · exact fun _ hw => (List.mem_filter.mp hw).1
          constructor
          case orderly => exact horderly
          case streams =>
            intro d hd
            exact h.streams d (hdeliveries ▸ hd)
          case guards =>
            refine hnext _ fun other hother => ?_
            obtain ⟨hfree, hnever⟩ := hrest other hother
            exact ⟨fun d hd => hfree d (hdeliveries ▸ hd), fun w hw => hnever w (hworkers w hw)⟩
          case unused => exact h.terminateGpuWorker hnone fun _ => hunregistered

theorem Guarded.check (h : s.Guarded base) {policy : ShapePolicy} {now : Rat}
    {fleet : FleetSnapshot} {target : String} {unchecked : List String} (expired : Bool)
    (hstage : s.stage = .draining policy now fleet target unchecked) :
    (s.check policy now fleet target expired unchecked).Guarded base := by
  have hguards := h.guards
  have hstands := h.orderly.stands
  rw [hstage] at hguards hstands
  have horderly := h.orderly.check hstands expired
  cases unchecked with
  | nil => exact h
  | cons engineId rest =>
      refine h.moves horderly rfl ?_ rfl
      obtain ⟨hstreams, hunchecked⟩ := hguards
      unfold Autoscaler.check
      dsimp only
      split
      case isTrue hempty =>
        refine ⟨hstreams, fun d hd howner => ?_⟩
        obtain rfl | hrest := List.mem_cons.mp (hunchecked d hd howner)
        · exact absurd (decide_eq_true rfl) (List.countP_eq_zero.mp hempty d hd)
        · exact hrest
      case isFalse =>
        split
        case isTrue => trivial
        case isFalse =>
          refine ⟨hstreams, fun d hd _ => ?_⟩
          rw [hstreams]
          exact h.streams d hd

theorem Guarded.terminate (h : s.Guarded base) {policy : ShapePolicy} {now : Rat}
    {fleet : FleetSnapshot} {target : String}
    (hstage : s.stage = .draining policy now fleet target [])
    (horderly : ({ s.terminateGpuWorker target (.scaledDown fleet) policy now with
      idleSince := none, stage := .waiting } : Autoscaler).Orderly base) :
    ({ s.terminateGpuWorker target (.scaledDown fleet) policy now with
      idleSince := none, stage := .waiting } : Autoscaler).Guarded base := by
  have hguards := h.guards
  rw [hstage] at hguards
  have hdeliveries : (s.terminateGpuWorker target (.scaledDown fleet) policy now).deliveries =
      s.deliveries := by
    unfold Autoscaler.terminateGpuWorker
    split <;> rfl
  constructor
  case orderly => exact horderly
  case streams =>
    intro d hd
    exact h.streams d (hdeliveries ▸ hd)
  case guards => trivial
  case unused =>
    refine h.terminateGpuWorker (fun d hd howner => ?_) fun hcause => by cases hcause
    cases hguards.2 d hd howner

theorem Guarded.step (hbase : base.Sound) (h : s.Guarded base) (py : Conversions)
    {action : AutoscalerAction} (hundisturbed : s.Undisturbed base action) :
    (s.next py base action).Guarded base := by
  have horderly := h.orderly.step hbase py action
  have hguards := h.guards
  have hkeep : ∀ w ∈ s.workers, w.registered = true →
      (∃ v ∈ s.workers, v.instanceId = w.instanceId ∧ v.registered = true) ∨
        s.reaps w.instanceId = false :=
    fun w hw hregistered => Or.inl ⟨w, hw, rfl, hregistered⟩
  cases action with
  | startTick now overrides lagKnown =>
      unfold next at horderly ⊢
      dsimp only at horderly ⊢
      split
      case h_1 hstage =>
        rw [hstage] at horderly
        exact h.moves horderly rfl trivial rfl
      case h_2 => exact h
  | scanFleet =>
      unfold next
      dsimp only
      split
      case h_1 hstage => exact h.scanFleet hstage hundisturbed
      case h_2 => exact h
  | reap raised =>
      unfold next
      dsimp only
      split
      case h_1 hstage => exact h.reap raised hstage
      case h_2 => exact h
  | launchSucceeds instanceId launchTime =>
      unfold next at horderly ⊢
      dsimp only at horderly ⊢
      split
      case h_1 hstage =>
        simp only [hstage] at horderly
        split
        case isTrue hlaunch =>
          rw [if_pos hlaunch] at horderly
          exact h.moves horderly rfl trivial rfl
        case isFalse => exact h
      case h_2 => exact h
  | launchFails quota detail =>
      unfold next at horderly ⊢
      dsimp only at horderly ⊢
      split
      case h_1 hstage =>
        simp only [hstage] at horderly
        split
        case isTrue hlaunch =>
          rw [if_pos hlaunch] at horderly
          unfold recordLaunchFailure at horderly ⊢
          split at horderly
          case isTrue hspot =>
            rw [if_pos hspot]
            exact h.moves horderly rfl trivial rfl
          case isFalse hspot =>
            rw [if_neg hspot]
            exact h.moves horderly rfl trivial rfl
        case isFalse => exact h
      case h_2 => exact h
  | launchLockHeld =>
      unfold next at horderly ⊢
      dsimp only at horderly ⊢
      split
      case h_1 hstage =>
        simp only [hstage] at horderly
        split
        case isTrue hlaunch =>
          rw [if_pos hlaunch] at horderly
          exact h.moves horderly rfl trivial rfl
        case isFalse => exact h
      case h_2 => exact h
  | settle =>
      unfold next at horderly ⊢
      dsimp only at horderly ⊢
      split
      case h_1 policy now fleet managed decided hstage =>
        rw [hstage] at hguards
        simp only [hstage] at horderly
        split
        case isTrue => exact h
        case isFalse hlaunches =>
          rw [if_neg hlaunches] at horderly
          refine h.moves horderly rfl ?_ rfl
          unfold Autoscaler.settle
          dsimp only
          split
          case isFalse => trivial
          case isTrue =>
            split
            case h_1 => trivial
            case h_2 =>
              refine ⟨hguards, fun d hd _ => ?_⟩
              rw [hguards]
              exact h.streams d hd
      case h_2 => exact h
  | check expired =>
      unfold next
      dsimp only
      split
      case h_1 hstage => exact h.check expired hstage
      case h_2 => exact h
  | terminate =>
      unfold next at horderly ⊢
      dsimp only at horderly ⊢
      split
      case h_1 hstage =>
        simp only [hstage] at horderly
        exact h.terminate hstage horderly
      case h_2 => exact h
  | enqueue engineId =>
      exact h.environment horderly rfl rfl (fun d hd => Or.inl hd) hkeep
  | deliver d =>
      unfold next at horderly ⊢
      dsimp only at horderly ⊢
      split
      case isTrue hdelivered =>
        rw [if_pos hdelivered] at horderly
        refine h.environment horderly rfl rfl (fun d' hd' => ?_) hkeep
        obtain rfl | hold := List.mem_cons.mp hd'
        · exact Or.inr ⟨hdelivered.2.1, hundisturbed⟩
        · exact Or.inl hold
      case isFalse => exact h
  | transfer d owner =>
      unfold next at horderly ⊢
      dsimp only at horderly ⊢
      split
      case isTrue htransferred =>
        rw [if_pos htransferred] at horderly
        refine h.environment horderly rfl rfl (fun d' hd' => ?_) hkeep
        obtain rfl | hold := List.mem_cons.mp hd'
        · exact Or.inr ⟨h.streams d htransferred.1, hundisturbed⟩
        · exact Or.inl (List.mem_of_mem_erase hold)
      case isFalse => exact h
  | acknowledge d =>
      exact h.environment horderly rfl rfl (fun d' hd' => Or.inl (List.mem_of_mem_erase hd')) hkeep
  | runs instanceId =>
      refine h.environment horderly rfl rfl (fun d hd => Or.inl hd) fun w' hw' hregistered => ?_
      obtain ⟨w, hw, rfl⟩ := mem_updateWorker.mp hw'
      refine Or.inl ⟨w, hw, ?_, ?_⟩
      · split <;> rfl
      · split at hregistered
        · exact hregistered
        · exact hregistered
  | register engineId instanceId =>
      unfold next at horderly ⊢
      dsimp only at horderly ⊢
      split
      case isFalse => exact h
      case isTrue hworker =>
        rw [if_pos hworker] at horderly
        refine h.environment horderly rfl rfl (fun d hd => Or.inl hd) fun w' hw' hregistered => ?_
        obtain ⟨w, hw, rfl⟩ := mem_updateWorker.mp hw'
        by_cases hid : w.instanceId = instanceId
        · rw [if_pos hid] at hregistered ⊢
          by_cases hreaps : s.reaps instanceId = true
          · have hfull := hundisturbed hreaps
            refine Or.inl ⟨w, hw, rfl, ?_⟩
            dsimp only at hregistered
            rw [hfull, Bool.or_false] at hregistered
            exact hregistered
          · exact Or.inr (hid.symm ▸ Bool.eq_false_of_not_eq_true hreaps)
        · rw [if_neg hid] at hregistered ⊢
          exact Or.inl ⟨w, hw, rfl, hregistered⟩
  | lapse engineId instanceId =>
      exact h.environment horderly rfl rfl (fun d hd => Or.inl hd) hkeep
  | arrives worker =>
      unfold next at horderly ⊢
      dsimp only at horderly ⊢
      split
      case isTrue => exact h
      case isFalse hfresh =>
        rw [if_neg hfresh] at horderly
        refine h.environment horderly rfl rfl (fun d hd => Or.inl hd) fun w' hw' hregistered => ?_
        obtain hold | hnew := List.mem_append.mp hw'
        · exact hkeep w' hold hregistered
        · rw [List.mem_singleton.mp hnew] at hregistered
          cases hregistered
  | vanishes instanceId =>
      exact h.environment horderly rfl rfl (fun d hd => Or.inl hd)
        fun w hw => hkeep w (List.mem_filter.mp hw).1
  | idleExpires => exact h.environment horderly rfl rfl (fun d hd => Or.inl hd) hkeep
  | blockedExpires => exact h.environment horderly rfl rfl (fun d hd => Or.inl hd) hkeep
  | cooldownExpires => exact h.environment horderly rfl rfl (fun d hd => Or.inl hd) hkeep

/-- In every run in which workers are left alone before their termination, and register in time,
no worker is terminated that is in use. -/
theorem unused_of_undisturbed {py : Conversions} {d : Config}
    (hbase : ShapePolicy.fromDict py d = .ok base) {s₀ : Autoscaler} (h₀ : s₀.Fresh base)
    (run : ActionRun (Acts (next py base)) (Undisturbed base) s₀ s) :
    ∀ t ∈ s.terminations, t.Unused := by
  have hsound := (ShapePolicy.fromDict_eq_ok hbase).1
  have hguarded : s.Guarded base :=
    run.invariant (h₀.guarded hsound) fun s action s' hs hstep hok => by
      obtain rfl := hstep
      exact hs.step hsound py hok
  exact hguarded.unused

section Samples

def pairDict : Config :=
  [("engines", .arr [.str "nemo", .str "pyannote"]),
    ("stream_engine_ids", .arr [.str "nemo", .str "pyannote-4.0"]),
    ("scale_down_after_s", .num 0)]

def pairPolicy : ShapePolicy where
  name := "nemo+pyannote"
  engines := ["nemo", "pyannote"]
  streamEngineIds := ["nemo", "pyannote-4.0"]
  tasksPerInstance := 20
  minInstances := 0
  maxInstances := 5
  scaleDownAfterS := 0
  drainWaitS := 60
  bootTimeoutS := 1800
  gpuTypePreference := defaultGpuTypePreference
  fallbackToOnDemand := false
  maxOnDemand := 1

theorem pairDict_valid : ShapePolicy.fromDict plain pairDict = .ok pairPolicy := by decide +kernel

theorem noWorkers_fresh_pair : noWorkers.Fresh pairPolicy where
  waiting := rfl
  ids := List.nodup_nil
  used := List.forall_mem_nil _
  recorded _ _ h := by cases h
  registered := List.forall_mem_nil _
  streams := List.forall_mem_nil _
  others := List.forall_mem_nil _
  idleSince := rfl
  blocked := rfl
  launches := rfl
  terminations := rfl

def task (n : Nat) : Delivery := ⟨n, "nemo", "i-1"⟩

/-- A worker is launched for a task, registers and takes it. -/
def taken : List AutoscalerAction :=
  [.enqueue "nemo", .startTick 0 [] fun _ => true, .scanFleet, .launchSucceeds "i-1" 0,
    .runs "i-1", .register "nemo" "i-1", .register "pyannote-4.0" "i-1", .deliver (task 0)]

/-- The task is done, and two ticks find the shape idle. -/
def drained : List AutoscalerAction :=
  taken ++ [AutoscalerAction.acknowledge (task 0), .startTick 60 [] fun _ => true, .scanFleet,
    .settle, .startTick 120 [] fun _ => true, .scanFleet, .settle, .check false, .check false]

/-- A record lapses while the worker is at work, half an hour after its launch. -/
def lapsed : List AutoscalerAction :=
  taken ++ [AutoscalerAction.lapse "pyannote-4.0" "i-1", .startTick 1800 [] fun _ => true,
    .scanFleet, .reap false]

/-- A task comes after the streams have been found empty. -/
def overtaken : List AutoscalerAction :=
  drained ++ [AutoscalerAction.enqueue "nemo", .deliver (task 1), .terminate]

theorem terminated_in_use : ¬ ∀ actions : List AutoscalerAction,
    ∀ t ∈ (actions.foldl (next plain pairPolicy) noWorkers).terminations, t.Unused := by
  intro h
  have hlapsed := h lapsed
  revert hlapsed
  decide +kernel

example : ¬ ∀ t ∈ (overtaken.foldl (next plain pairPolicy) noWorkers).terminations, t.Unused := by
  decide +kernel

theorem unused_sample :
    ((drained ++ [AutoscalerAction.terminate]).foldl
        (next plain pairPolicy) noWorkers).terminations.length = 1 ∧
      ∀ t ∈ ((drained ++ [AutoscalerAction.terminate]).foldl
        (next plain pairPolicy) noWorkers).terminations, t.Unused :=
  ⟨by decide +kernel, unused_of_undisturbed pairDict_valid noWorkers_fresh_pair
    (ActionRun.of_permitted (by decide +kernel))⟩

end Samples

end Autoscaler

end Dalston.Infra
