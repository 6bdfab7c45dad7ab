import Dalston.Infra.Autoscaler

/-!
# The bounds that the GPU autoscaler keeps

A tick launches only into a fleet that its scan has shown to be complete and below the
maximum, pays for on-demand capacity only after a streak of failed spot launches, and
scales down only a fleet above the minimum that has been idle for the whole cooldown.
-/

namespace Dalston.Infra

open Foundation Model

def FleetSnapshot.ids (fleet : FleetSnapshot) : List String :=
  fleet.liveInstanceIds ++ fleet.pendingInstanceIds

/-- The shape has been idle at every tick since the given one. -/
def IdleSince (ticks : List TickRecord) (since : Rat) : Prop :=
  ∃ recent, recent ++ [⟨since, true⟩] <+: ticks ∧ ∀ tick ∈ recent, tick.allIdle = true

/-- Of what the scan has shown no worker is booting and the maximum is not reached; for an
on-demand launch spot has failed and the policy asks for the fallback. -/
structure Launch.Bounded (base : ShapePolicy) (l : Launch) : Prop where
  single : ∀ w ∈ l.present, w.instanceId ∈ l.scanned.ids → w.registered = true
  room : ((l.present.filter fun w => w.instanceId ∈ l.scanned.ids).length : Int) <
    l.policy.maxInstances
  paid : l.onDemand = true → base.fallbackToOnDemand = true ∧ 5 ≤ l.failedSpot

/-- A scale-down has found more live workers than the minimum, idle for the whole cooldown. -/
def Termination.Bounded (t : Termination) : Prop :=
  ∀ fleet, t.cause = .scaledDown fleet → t.policy.minInstances < fleet.live ∧
    ∃ since, IdleSince t.ticks since ∧ (t.policy.scaleDownAfterS : Rat) ≤ t.now - since

namespace Autoscaler

/-- The on-demand workers that ticks have launched and that are still there. -/
def paidWorkers (s : Autoscaler) : Nat := s.workers.countP fun w => w.ours && !w.spot

structure Bounded (base : ShapePolicy) (s : Autoscaler) : Prop where
  launches : ∀ l ∈ s.launches, l.Bounded base
  terminations : ∀ t ∈ s.terminations, t.Bounded
  onDemand : (s.paidWorkers : Int) ≤ base.maxOnDemand

end Autoscaler

section Scan

variable {policy base : ShapePolicy} {nodes : String → List String} {workers : List Worker}

theorem discover_perm (workers : List Worker) : (discoverGpuWorkers workers).Perm workers :=
  List.perm_insertionSort _ workers

theorem total_fetch :
    (fetchAutoscaleFleet policy nodes workers).total = workers.length := by
  have hsplit := List.length_eq_length_filter_add (l := discoverGpuWorkers workers)
    (policy.isLive nodes)
  rw [(discover_perm workers).length_eq] at hsplit
  simp only [FleetSnapshot.total, FleetSnapshot.live, FleetSnapshot.pending, fetchAutoscaleFleet,
    List.length_map, liveWorkers, pendingWorkers]
  omega

theorem onDemandTotal_fetch :
    (fetchAutoscaleFleet policy nodes workers).onDemandTotal =
      workers.countP fun w => !w.spot := by
  have hlive := List.length_eq_length_filter_add (l := liveWorkers policy nodes workers) (·.spot)
  have hpending :=
    List.length_eq_length_filter_add (l := pendingWorkers policy nodes workers) (·.spot)
  have hsplit := List.countP_eq_countP_filter_add (discoverGpuWorkers workers) (fun w => !w.spot)
    (policy.isLive nodes)
  rw [(discover_perm workers).countP_eq, List.countP_eq_length_filter (p := fun w : Worker => !w.spot),
    List.countP_eq_length_filter (p := fun w : Worker => !w.spot),
    List.countP_eq_length_filter (p := fun w : Worker => !w.spot)] at hsplit
  rw [List.countP_eq_length_filter]
  simp only [FleetSnapshot.onDemandTotal, FleetSnapshot.onDemandLive,
    FleetSnapshot.onDemandPending, FleetSnapshot.live, FleetSnapshot.pending,
    FleetSnapshot.spotLive, fetchAutoscaleFleet, List.length_map]
  unfold liveWorkers at hlive ⊢
  unfold pendingWorkers at hpending ⊢
  omega

theorem fullyIn_of_no_pending (hpending : (fetchAutoscaleFleet policy nodes workers).pending = 0)
    {w : Worker} (hw : w ∈ workers) : policy.fullyIn nodes w.instanceId = true := by
  have hnone : pendingWorkers policy nodes workers = [] := by
    have hlength : (pendingWorkers policy nodes workers).length = 0 := by
      simpa [FleetSnapshot.pending, fetchAutoscaleFleet] using hpending
    exact List.length_eq_zero_iff.mp hlength
  have hlive := List.filter_eq_nil_iff.mp hnone w ((discover_perm workers).mem_iff.mpr hw)
  have hboth : policy.isLive nodes w = true := by simpa using hlive
  exact (Bool.and_eq_true_iff.mp hboth).2

theorem mem_ids_fetch {instanceId : String} :
    instanceId ∈ (fetchAutoscaleFleet policy nodes workers).ids ↔
      ∃ w ∈ workers, w.instanceId = instanceId := by
  have hmem : ∀ w : Worker, w ∈ discoverGpuWorkers workers ↔ w ∈ workers :=
    fun w => (discover_perm workers).mem_iff
  simp only [FleetSnapshot.ids, fetchAutoscaleFleet, liveWorkers, pendingWorkers, List.mem_append,
    List.mem_map, List.mem_filter, hmem, Bool.not_eq_true']
  constructor
  · rintro (⟨w, ⟨hw, -⟩, rfl⟩ | ⟨w, ⟨hw, -⟩, rfl⟩)
    · exact ⟨w, hw, rfl⟩
    · exact ⟨w, hw, rfl⟩
  · rintro ⟨w, hw, rfl⟩
    cases hlive : policy.isLive nodes w with
    | true => exact Or.inl ⟨w, ⟨hw, hlive⟩, rfl⟩
    | false => exact Or.inr ⟨w, ⟨hw, hlive⟩, rfl⟩

end Scan

namespace Autoscaler

/-- What a tick may rely on where it stands. -/
def Stands (base : ShapePolicy) (s : Autoscaler) : TickStage → Prop
  | .waiting | .reaping .. => True
  | .reading policy _ _ nodes =>
      policy.Overrides base ∧ (∀ engineId instanceId, instanceId ∈ nodes engineId →
          instanceId ∈ s.usedIds) ∧
        ∀ w ∈ s.workers, base.fullyIn nodes w.instanceId = true → w.registered = true
  | .applying policy now fleet _ action =>
      (∀ instanceId ∈ fleet.ids, instanceId ∈ s.usedIds) ∧
        (action.launches = true →
          (∀ w ∈ s.workers, w.instanceId ∈ fleet.ids → w.registered = true) ∧
            ((s.workers.filter fun w => w.instanceId ∈ fleet.ids).length : Int) <
              policy.maxInstances) ∧
        (action = .launchOnDemand → base.fallbackToOnDemand = true ∧ 5 ≤ s.failedSpot ∧
          (s.paidWorkers : Int) < base.maxOnDemand) ∧
        (action = .terminate → policy.minInstances < fleet.live ∧
          ∃ since, IdleSince s.ticks since ∧ (policy.scaleDownAfterS : Rat) ≤ now - since)
  | .draining policy now fleet _ _ => policy.minInstances < fleet.live ∧
      ∃ since, IdleSince s.ticks since ∧ (policy.scaleDownAfterS : Rat) ≤ now - since

structure Orderly (base : ShapePolicy) (s : Autoscaler) : Prop where
  ids : (s.workers.map (·.instanceId)).Nodup
  used : ∀ w ∈ s.workers, w.instanceId ∈ s.usedIds
  recorded : ∀ engineId instanceId, instanceId ∈ s.records engineId → instanceId ∈ s.usedIds
  registered : ∀ w ∈ s.workers, base.fullyIn s.records w.instanceId = true → w.registered = true
  blocked : ∀ info, s.blocked = some info → info.consecutiveTicks ≤ s.failedSpot
  idleSince : ∀ since, s.idleSince = some since → IdleSince s.ticks since
  bounded : s.Bounded base
  stands : s.Stands base s.stage

variable {base : ShapePolicy} {s s' : Autoscaler}

theorem Fresh.orderly (hbase : base.Sound) (h : s.Fresh base) : s.Orderly base where
  ids := h.ids
  used := h.used
  recorded := h.recorded
  registered := h.registered
  blocked info hinfo := by
    rw [h.blocked] at hinfo
    cases hinfo
  idleSince since hsince := by
    rw [h.idleSince] at hsince
    cases hsince
  bounded := by
    constructor
    · rw [h.launches]
      exact List.forall_mem_nil _
    · rw [h.terminations]
      exact List.forall_mem_nil _
    · have hnone : s.paidWorkers = 0 := by
        refine List.countP_eq_zero.mpr fun w hw => ?_
        simp [h.others w hw]
      rw [hnone]
      exact hbase.onDemand
  stands := by
    rw [h.waiting]
    trivial

/-- Every worker that was there before is one of the earlier ones, or an older state of it. -/
structure Continues (s s' : Autoscaler) : Prop where
  ids : (s'.workers.map (·.instanceId)).Nodup
  ages : ∀ w' ∈ s'.workers, w'.instanceId ∈ s.usedIds →
    ∃ w ∈ s.workers, w.instanceId = w'.instanceId ∧ (w.registered = true → w'.registered = true)
  used : ∀ instanceId ∈ s.usedIds, instanceId ∈ s'.usedIds
  paid : s'.paidWorkers ≤ s.paidWorkers
  ticks : s'.ticks = s.ticks
  failedSpot : s'.failedSpot = s.failedSpot

/-- Of the workers that a scan has shown there are no more than before. -/
theorem Continues.length_le (h : s.Continues s') {known : List String}
    (hknown : ∀ instanceId ∈ known, instanceId ∈ s.usedIds) :
    (s'.workers.filter fun w => w.instanceId ∈ known).length ≤
      (s.workers.filter fun w => w.instanceId ∈ known).length := by
  have hsub : ((s'.workers.filter fun w => w.instanceId ∈ known).map (·.instanceId)) ⊆
      ((s.workers.filter fun w => w.instanceId ∈ known).map (·.instanceId)) := by
    intro instanceId hmem
    obtain ⟨w', hw', rfl⟩ := List.mem_map.mp hmem
    obtain ⟨hw', hin⟩ := List.mem_filter.mp hw'
    have hin : w'.instanceId ∈ known := by simpa using hin
    obtain ⟨w, hw, heq, -⟩ := h.ages w' hw' (hknown _ hin)
    refine List.mem_map.mpr ⟨w, List.mem_filter.mpr ⟨hw, ?_⟩, heq⟩
    simpa [heq] using hin
  have hnodup : ((s'.workers.filter fun w => w.instanceId ∈ known).map (·.instanceId)).Nodup :=
    h.ids.sublist (List.filter_sublist.map _)
  have hle := (List.subperm_of_subset hnodup hsub).length_le
  rwa [List.length_map, List.length_map] at hle

theorem Stands.continues (hbase : base.Sound) {stage : TickStage} (hstands : s.Stands base stage)
    (h : s.Continues s') : s'.Stands base stage := by
  cases stage with
  | waiting | reaping => trivial
  | reading policy now backlog nodes =>
      obtain ⟨hpolicy, hnodes, hregistered⟩ := hstands
      refine ⟨hpolicy, fun engineId instanceId hmem => h.used _ (hnodes _ _ hmem), ?_⟩
      intro w' hw' hfull
      obtain ⟨engineId, hengine⟩ := List.exists_mem_of_ne_nil _ hbase.streams
      have hnode : w'.instanceId ∈ nodes engineId := by
        simpa using List.all_eq_true.mp hfull engineId hengine
      obtain ⟨w, hw, heq, hage⟩ := h.ages w' hw' (hnodes _ _ hnode)
      exact hage (hregistered w hw (heq ▸ hfull))
  | applying policy now fleet managed action =>
      obtain ⟨hused, hlaunch, hpaid, hterminate⟩ := hstands
      refine ⟨fun instanceId hmem => h.used _ (hused _ hmem), ?_, ?_, ?_⟩
      · intro hlaunches
        obtain ⟨hsingle, hroom⟩ := hlaunch hlaunches
        constructor
        · intro w' hw' hmem
          obtain ⟨w, hw, heq, hage⟩ := h.ages w' hw' (hused _ hmem)
          exact hage (hsingle w hw (heq ▸ hmem))
        · exact (Int.ofNat_le.mpr (h.length_le hused)).trans_lt hroom
      · intro hpays
        obtain ⟨hfallback, hstreak, hroom⟩ := hpaid hpays
        refine ⟨hfallback, ?_, (Int.ofNat_le.mpr h.paid).trans_lt hroom⟩
        rw [h.failedSpot]
        exact hstreak
      · rw [h.ticks]
        exact hterminate
  | draining policy now fleet target unchecked =>
      unfold Stands at hstands ⊢
      rw [h.ticks]
      exact hstands

section Environment

theorem Orderly.continues (hbase : base.Sound) (h : s.Orderly base) (hcontinues : s.Continues s')
    (hused : ∀ w ∈ s'.workers, w.instanceId ∈ s'.usedIds)
    (hrecorded : ∀ engineId instanceId, instanceId ∈ s'.records engineId →
      instanceId ∈ s'.usedIds)
    (hregistered : ∀ w ∈ s'.workers, base.fullyIn s'.records w.instanceId = true →
      w.registered = true)
    (hblocked : s'.blocked = s.blocked ∨ s'.blocked = none)
    (hidle : s'.idleSince = s.idleSince ∨ s'.idleSince = none)
    (hlaunches : s'.launches = s.launches) (hterminations : s'.terminations = s.terminations)
    (hstage : s'.stage = s.stage) : s'.Orderly base where
  ids := hcontinues.ids
  used := hused
  recorded := hrecorded
  registered := hregistered
  blocked info hinfo := by
    rw [hcontinues.failedSpot]
    obtain hsame | hnone := hblocked
    · exact h.blocked info (hsame ▸ hinfo)
    · rw [hnone] at hinfo
      cases hinfo
  idleSince since hsince := by
    rw [hcontinues.ticks]
    obtain hsame | hnone := hidle
    · exact h.idleSince since (hsame ▸ hsince)
    · rw [hnone] at hsince
      cases hsince
  bounded := by
    refine ⟨?_, ?_, (Int.ofNat_le.mpr hcontinues.paid).trans h.bounded.onDemand⟩
    · rw [hlaunches]
      exact h.bounded.launches
    · rw [hterminations]
      exact h.bounded.terminations
  stands := by
    rw [hstage]
    exact h.stands.continues hbase hcontinues

theorem Orderly.continues_self (h : s.Orderly base) (hworkers : s'.workers = s.workers)
    (hused : s'.usedIds = s.usedIds) (hticks : s'.ticks = s.ticks)
    (hfailed : s'.failedSpot = s.failedSpot) : s.Continues s' where
  ids := hworkers ▸ h.ids
  ages w hw _ := ⟨w, hworkers ▸ hw, rfl, id⟩
  used instanceId hmem := hused ▸ hmem
  paid := by
    unfold paidWorkers
    rw [hworkers]
  ticks := hticks
  failedSpot := hfailed

/-- The queues have changed, or a stored value has expired. -/
theorem Orderly.unmoved (hbase : base.Sound) (h : s.Orderly base)
    (hworkers : s'.workers = s.workers) (hused : s'.usedIds = s.usedIds)
    (hrecords : s'.records = s.records) (hticks : s'.ticks = s.ticks)
    (hfailed : s'.failedSpot = s.failedSpot)
    (hblocked : s'.blocked = s.blocked ∨ s'.blocked = none)
    (hidle : s'.idleSince = s.idleSince ∨ s'.idleSince = none)
    (hlaunches : s'.launches = s.launches) (hterminations : s'.terminations = s.terminations)
    (hstage : s'.stage = s.stage) : s'.Orderly base := by
  refine h.continues hbase (h.continues_self hworkers hused hticks hfailed) ?_ ?_ ?_ hblocked hidle
    hlaunches hterminations hstage
  · rw [hworkers, hused]
    exact h.used
  · rw [hrecords, hused]
    exact h.recorded
  · rw [hworkers, hrecords]
    exact h.registered

theorem mem_updateWorker {instanceId : String} {f : Worker → Worker} {w' : Worker} :
    w' ∈ (s.updateWorker instanceId f).workers ↔
      ∃ w ∈ s.workers, (if w.instanceId = instanceId then f w else w) = w' :=
  List.mem_map

/-- A worker gets on, and stays what it is. -/
theorem Orderly.updateWorker (h : s.Orderly base) (instanceId : String) {f : Worker → Worker}
    (hid : ∀ w, (f w).instanceId = w.instanceId) (hours : ∀ w, (f w).ours = w.ours)
    (hspot : ∀ w, (f w).spot = w.spot)
    (hregistered : ∀ w, w.registered = true → (f w).registered = true) :
    s.Continues (s.updateWorker instanceId f) := by
  have hsame : ∀ w : Worker, (if w.instanceId = instanceId then f w else w).instanceId =
      w.instanceId := by
    intro w
    split
    · exact hid w
    · rfl
  constructor
  case ids =>
    have hmap : (s.updateWorker instanceId f).workers.map (·.instanceId) =
        s.workers.map (·.instanceId) := by
      unfold Autoscaler.updateWorker
      rw [List.map_map]
      exact List.map_congr_left fun w _ => hsame w
    rw [hmap]
    exact h.ids
  case ages =>
    intro w' hw' _
    obtain ⟨w, hw, rfl⟩ := mem_updateWorker.mp hw'
    refine ⟨w, hw, (hsame w).symm, fun hw => ?_⟩
    split
    · exact hregistered w hw
    · exact hw
  case used => exact fun _ hmem => hmem
  case paid =>
    unfold paidWorkers Autoscaler.updateWorker
    rw [List.countP_map]
    refine le_of_eq (List.countP_congr fun w _ => ?_)
    dsimp only [Function.comp_apply]
    split
    · rw [hours, hspot]
    · rfl
  case ticks => rfl
  case failedSpot => rfl

theorem Orderly.runs (hbase : base.Sound) (h : s.Orderly base) (instanceId : String) :
    (s.updateWorker instanceId fun w => { w with running := true }).Orderly base := by
  have hcontinues := h.updateWorker (f := fun w => { w with running := true }) instanceId
    (fun _ => rfl) (fun _ => rfl) (fun _ => rfl) fun _ hw => hw
  refine h.continues hbase hcontinues ?_ h.recorded ?_ (Or.inl rfl) (Or.inl rfl) rfl rfl rfl
  · intro w' hw'
    obtain ⟨w, hw, rfl⟩ := mem_updateWorker.mp hw'
    split
    · exact h.used w hw
    · exact h.used w hw
  · intro w' hw' hfull
    obtain ⟨w, hw, rfl⟩ := mem_updateWorker.mp hw'
    by_cases heq : w.instanceId = instanceId
    · rw [if_pos heq] at hfull ⊢
      exact h.registered w hw hfull
    · rw [if_neg heq] at hfull ⊢
      exact h.registered w hw hfull

/-- Only the node that is registered gets a new record. -/
theorem fullyIn_of_register {records : String → List String} {engineId instanceId other : String}
    (hne : other ≠ instanceId)
    (hfull : base.fullyIn (Function.update records engineId (instanceId :: records engineId)) other =
      true) : base.fullyIn records other = true := by
  refine List.all_eq_true.mpr fun engine hengine => ?_
  have hmem := List.all_eq_true.mp hfull engine hengine
  rw [decide_eq_true_eq, Function.update_apply] at hmem
  split at hmem
  case isTrue heq =>
    subst heq
    exact decide_eq_true ((List.mem_cons.mp hmem).resolve_left hne)
  case isFalse => exact decide_eq_true hmem

theorem Orderly.register (hbase : base.Sound) (h : s.Orderly base) {engineId instanceId : String}
    (hworker : s.workers.any (fun w => w.instanceId = instanceId && w.running) = true) :
    (s.register base engineId instanceId).Orderly base := by
  set records := Function.update s.records engineId (instanceId :: s.records engineId) with hrecords
  have hcontinues := h.updateWorker
    (f := fun w => { w with registered := w.registered || base.fullyIn records instanceId })
    instanceId (fun _ => rfl) (fun _ => rfl) (fun _ => rfl) fun w hw => by simp [hw]
  obtain ⟨worker, hmem, hrunning⟩ := List.any_eq_true.mp hworker
  have hid : worker.instanceId = instanceId := by
    simpa using (Bool.and_eq_true_iff.mp hrunning).1
  have hregister : s.Continues (s.register base engineId instanceId) :=
    ⟨hcontinues.ids, hcontinues.ages, hcontinues.used, hcontinues.paid, rfl, rfl⟩
  refine h.continues hbase hregister ?_ ?_ ?_ (Or.inl rfl) (Or.inl rfl) rfl rfl rfl
  · intro w' hw'
    obtain ⟨w, hw, rfl⟩ := mem_updateWorker.mp hw'
    split
    · exact h.used w hw
    · exact h.used w hw
  · intro engine other hother
    change other ∈ Function.update s.records engineId (instanceId :: s.records engineId) engine
      at hother
    rw [Function.update_apply] at hother
    split at hother
    · obtain rfl | hother := List.mem_cons.mp hother
      · exact hid ▸ h.used worker hmem
      · exact h.recorded _ _ hother
    · exact h.recorded _ _ hother
  · intro w' hw' hfull
    obtain ⟨w, hw, rfl⟩ := mem_updateWorker.mp hw'
    change base.fullyIn records _ = true at hfull
    by_cases heq : w.instanceId = instanceId
    · rw [if_pos heq] at hfull ⊢
      have hnew : base.fullyIn records instanceId = true := heq ▸ hfull
      change (w.registered || base.fullyIn records instanceId) = true
      rw [hnew, Bool.or_true]
    · rw [if_neg heq] at hfull ⊢
      exact h.registered w hw (fullyIn_of_register heq hfull)

theorem Orderly.lapse (hbase : base.Sound) (h : s.Orderly base) (engineId instanceId : String) :
    ({ s with
        records := Function.update s.records engineId
          ((s.records engineId).filter (· ≠ instanceId)) } : Autoscaler).Orderly base := by
  have hsub : ∀ engine other, other ∈ Function.update s.records engineId
      ((s.records engineId).filter (· ≠ instanceId)) engine → other ∈ s.records engine := by
    intro engine other hother
    rw [Function.update_apply] at hother
    split at hother
    case isTrue heq =>
      subst heq
      exact (List.mem_filter.mp hother).1
    case isFalse => exact hother
  refine h.continues hbase (h.continues_self rfl rfl rfl rfl) h.used
    (fun engine other hother => h.recorded _ _ (hsub engine other hother)) ?_ (Or.inl rfl)
    (Or.inl rfl) rfl rfl rfl
  intro w hw hfull
  refine h.registered w hw (List.all_eq_true.mpr fun engine hengine => ?_)
  have hmem := List.all_eq_true.mp hfull engine hengine
  exact decide_eq_true (hsub _ _ (of_decide_eq_true hmem))

/-- A worker without a record is there. -/
theorem not_fullyIn (hbase : base.Sound) (h : s.Orderly base) {instanceId : String}
    (hfresh : instanceId ∉ s.usedIds) : base.fullyIn s.records instanceId ≠ true := by
  intro hfull
  obtain ⟨engineId, hengine⟩ := List.exists_mem_of_ne_nil _ hbase.streams
  have hmem := List.all_eq_true.mp hfull engineId hengine
  exact hfresh (h.recorded _ _ (of_decide_eq_true hmem))

theorem Orderly.nodup_append (h : s.Orderly base) {worker : Worker}
    (hfresh : worker.instanceId ∉ s.usedIds) :
    ((s.workers ++ [worker]).map (·.instanceId)).Nodup := by
  rw [List.map_append, List.nodup_append]
  refine ⟨h.ids, List.nodup_singleton _, ?_⟩
  intro instanceId hmem other hother
  obtain ⟨w, hw, rfl⟩ := List.mem_map.mp hmem
  rw [List.map_singleton, List.mem_singleton] at hother
  rintro rfl
  exact hfresh (hother ▸ h.used w hw)

/-- A new worker leaves the others as they are. -/
theorem Orderly.continues_append (h : s.Orderly base) {worker : Worker}
    (hfresh : worker.instanceId ∉ s.usedIds) (hours : worker.ours = false)
    (hworkers : s'.workers = s.workers ++ [worker])
    (hused : s'.usedIds = worker.instanceId :: s.usedIds) (hticks : s'.ticks = s.ticks)
    (hfailed : s'.failedSpot = s.failedSpot) : s.Continues s' := by
  constructor
  case ids =>
    rw [hworkers]
    exact h.nodup_append hfresh
  case ages =>
    intro w' hw' hmem
    rw [hworkers] at hw'
    obtain hw' | hw' := List.mem_append.mp hw'
    · exact ⟨w', hw', rfl, id⟩
    · obtain rfl := List.mem_singleton.mp hw'
      exact absurd hmem hfresh
  case used =>
    intro instanceId hmem
    rw [hused]
    exact List.mem_cons_of_mem _ hmem
  case paid =>
    unfold paidWorkers
    rw [hworkers, List.countP_append]
    simp [hours]
  case ticks => exact hticks
  case failedSpot => exact hfailed

theorem Orderly.arrives (hbase : base.Sound) (h : s.Orderly base) {worker : Worker}
    (hfresh : worker.instanceId ∉ s.usedIds) :
    ({ s with
        workers := s.workers ++ [{ worker with ours := false, registered := false }]
        usedIds := worker.instanceId :: s.usedIds } : Autoscaler).Orderly base := by
  have hcontinues := @Orderly.continues_append base s
    { s with
      workers := s.workers ++ [{ worker with ours := false, registered := false }]
      usedIds := worker.instanceId :: s.usedIds } h
    { worker with ours := false, registered := false } hfresh rfl rfl rfl rfl rfl
  refine h.continues hbase hcontinues ?_ ?_ ?_ (Or.inl rfl) (Or.inl rfl) rfl rfl rfl
  · intro w hw
    obtain hw | hw := List.mem_append.mp hw
    · exact List.mem_cons_of_mem _ (h.used w hw)
    · rw [List.mem_singleton.mp hw]
      exact List.mem_cons_self
  · exact fun engineId instanceId hmem => List.mem_cons_of_mem _ (h.recorded _ _ hmem)
  · intro w hw hfull
    obtain hw | hw := List.mem_append.mp hw
    · exact h.registered w hw hfull
    · rw [List.mem_singleton.mp hw] at hfull
      exact absurd hfull (not_fullyIn hbase h hfresh)

theorem Orderly.continues_remove (h : s.Orderly base) (instanceId : String)
    (hworkers : s'.workers = s.workers.filter fun w => w.instanceId ≠ instanceId)
    (hused : s'.usedIds = s.usedIds) (hticks : s'.ticks = s.ticks)
    (hfailed : s'.failedSpot = s.failedSpot) : s.Continues s' := by
  constructor
  case ids =>
    rw [hworkers]
    exact h.ids.sublist (List.filter_sublist.map _)
  case ages =>
    intro w hw _
    rw [hworkers] at hw
    exact ⟨w, (List.mem_filter.mp hw).1, rfl, id⟩
  case used =>
    rw [hused]
    exact fun _ hmem => hmem
  case paid =>
    unfold paidWorkers
    rw [hworkers]
    exact List.filter_sublist.countP_le
  case ticks => exact hticks
  case failedSpot => exact hfailed

theorem Orderly.vanishes (hbase : base.Sound) (h : s.Orderly base) (instanceId : String) :
    (s.removeWorker instanceId).Orderly base :=
  h.continues hbase (h.continues_remove instanceId rfl rfl rfl rfl)
    (fun w hw => h.used w (List.mem_filter.mp hw).1) h.recorded
    (fun w hw => h.registered w (List.mem_filter.mp hw).1) (Or.inl rfl) (Or.inl rfl) rfl rfl rfl

end Environment

section Ticks

theorem stands_stage (stage stage' : TickStage) :
    ({ s with stage } : Autoscaler).Stands base stage' ↔ s.Stands base stage' := by
  cases stage' <;> rfl

theorem Orderly.stage (h : s.Orderly base) {stage : TickStage} (hstands : s.Stands base stage) :
    ({ s with stage } : Autoscaler).Orderly base :=
  ⟨h.ids, h.used, h.recorded, h.registered, h.blocked, h.idleSince,
    ⟨h.bounded.launches, h.bounded.terminations, h.bounded.onDemand⟩,
    (stands_stage stage stage).mpr hstands⟩

theorem Orderly.startTick (hbase : base.Sound) (h : s.Orderly base) (py : Conversions) (now : Rat)
    (overrides : Dict String) (lagKnown : String → Bool) :
    (s.startTick py base now overrides lagKnown).Orderly base :=
  h.stage ⟨applyOverrides_overrides hbase overrides, h.recorded, h.registered⟩

/-- The key for the idle time is as old as the idleness. -/
theorem idleSince_update {idleSince : Option Rat} {ticks : List TickRecord} {allIdle other : Bool}
    {now : Rat} (h : ∀ since, idleSince = some since → IdleSince ticks since) {since : Rat}
    (hsince : (updateIdleState idleSince (allIdle && other) now).1 = some since) :
    IdleSince (⟨now, allIdle⟩ :: ticks) since := by
  unfold updateIdleState at hsince
  split at hsince
  case isFalse => cases hsince
  case isTrue hidle =>
    have hall : allIdle = true := (Bool.and_eq_true_iff.mp hidle).1
    subst hall
    split at hsince
    case h_1 before =>
      obtain rfl := Option.some.inj hsince
      obtain ⟨recent, hprefix, hrecent⟩ := h before rfl
      refine ⟨⟨now, true⟩ :: recent, List.cons_prefix_cons.mpr ⟨rfl, hprefix⟩, ?_⟩
      exact List.forall_mem_cons.mpr ⟨rfl, hrecent⟩
    case h_2 =>
      obtain rfl := Option.some.inj hsince
      exact ⟨[], List.cons_prefix_cons.mpr ⟨rfl, List.nil_prefix⟩, List.forall_mem_nil _⟩

/-- The idle time that a tick decides with is counted from what is stored. -/
theorem since_of_idle {idleSince : Option Rat} {idleNow : Bool} {now idleS : Rat}
    (h : (updateIdleState idleSince idleNow now).2 = some idleS) :
    ∃ since, (updateIdleState idleSince idleNow now).1 = some since ∧ idleS = now - since := by
  unfold updateIdleState at h ⊢
  split at h
  case isFalse => cases h
  case isTrue hidle =>
    rw [if_pos hidle]
    split at h
    case h_1 since => exact ⟨since, rfl, (Option.some.inj h).symm⟩
    case h_2 => cases h

theorem paidWorkers_le (s : Autoscaler) : s.paidWorkers ≤ s.workers.countP fun w => !w.spot :=
  List.countP_mono_left fun _ _ hpaid => (Bool.and_eq_true_iff.mp hpaid).2

theorem Orderly.scanFleet (h : s.Orderly base) {policy : ShapePolicy} {now : Rat}
    {backlog : BacklogSnapshot} {nodes : String → List String}
    (hstands : s.Stands base (.reading policy now backlog nodes)) :
    (s.scanFleet policy now backlog nodes).Orderly base := by
  obtain ⟨hpolicy, hnodes, hregistered⟩ := hstands
  have hidle : ∀ since, (updateIdleState s.idleSince (backlog.allIdle &&
      decide (0 < (fetchAutoscaleFleet policy nodes s.workers).total)) now).1 = some since →
      IdleSince (⟨now, backlog.allIdle⟩ :: s.ticks) since :=
    fun since hsince => idleSince_update h.idleSince hsince
  refine ⟨h.ids, h.used, h.recorded, h.registered, h.blocked, hidle,
    ⟨h.bounded.launches, h.bounded.terminations, h.bounded.onDemand⟩, ?_⟩
  unfold Autoscaler.scanFleet
  dsimp only
  split
  case isFalse => trivial
  case isTrue =>
    refine ⟨?_, ?_, ?_, ?_⟩
    · intro instanceId hmem
      obtain ⟨w, hw, rfl⟩ := mem_ids_fetch.mp hmem
      exact h.used w hw
    · intro hlaunches
      obtain ⟨hpending, hroom⟩ := decideAction_launches hpolicy.sound hlaunches
      constructor
      · intro w hw _
        have hfull := fullyIn_of_no_pending hpending hw
        unfold ShapePolicy.fullyIn at hfull hregistered
        rw [hpolicy.streamEngineIds] at hfull
        exact hregistered w hw hfull
      · rw [total_fetch] at hroom
        exact (Int.ofNat_le.mpr (List.length_filter_le _ _)).trans_lt hroom
    · intro hpays
      obtain ⟨hfallback, hblocked, hroom⟩ := decideAction_onDemand hpays
      rw [hpolicy.fallbackToOnDemand] at hfallback
      rw [onDemandTotal_fetch, hpolicy.maxOnDemand] at hroom
      refine ⟨hfallback, ?_, (Int.ofNat_le.mpr s.paidWorkers_le).trans_lt hroom⟩
      cases hinfo : s.blocked with
      | none =>
          rw [hinfo] at hblocked
          cases hblocked
      | some info =>
          rw [hinfo] at hblocked
          exact Nat.le_trans hblocked (h.blocked info hinfo)
    · intro hterminates
      obtain ⟨hlive, -, idleS, hidleS, hcooldown⟩ := decideAction_terminate hterminates
      obtain ⟨since, hsince, rfl⟩ := since_of_idle hidleS
      exact ⟨hlive, since, hidle since hsince, hcooldown⟩

/-- A worker is terminated for a cause that is in order. -/
theorem Orderly.terminateGpuWorker (h : s.Orderly base) (instanceId : String) {cause : Cause}
    {policy : ShapePolicy} {now : Rat}
    (hcause : ∀ fleet, cause = .scaledDown fleet → policy.minInstances < fleet.live ∧
      ∃ since, IdleSince s.ticks since ∧ (policy.scaleDownAfterS : Rat) ≤ now - since) :
    ({ s.terminateGpuWorker instanceId cause policy now with stage := .waiting } :
      Autoscaler).Orderly base := by
  unfold Autoscaler.terminateGpuWorker
  split
  case h_1 => exact h.stage trivial
  case h_2 worker _ =>
    have hremove : s.Continues (s.removeWorker instanceId) :=
      h.continues_remove instanceId rfl rfl rfl rfl
    refine ⟨hremove.ids, fun w hw => h.used w (List.mem_filter.mp hw).1, h.recorded,
      fun w hw => h.registered w (List.mem_filter.mp hw).1, h.blocked, h.idleSince,
      ⟨h.bounded.launches, ?_, (Int.ofNat_le.mpr hremove.paid).trans h.bounded.onDemand⟩, trivial⟩
    exact List.forall_mem_cons.mpr ⟨hcause, h.bounded.terminations⟩

theorem Orderly.reap (h : s.Orderly base) (policy : ShapePolicy) (now : Rat) (raised : Bool)
    (stuck : List String) : (s.reap policy now raised stuck).Orderly base := by
  cases stuck with
  | nil => exact h.stage trivial
  | cons instanceId rest =>
      have hstands : ∀ s : Autoscaler, s.Stands base
          (if rest = [] then .waiting else .reaping policy now rest) := by
        intro s
        split <;> trivial
      cases raised with
      | true => exact h.stage (hstands s)
      | false =>
          have hreaped : ({ s.terminateGpuWorker instanceId .reaped policy now with
              stage := .waiting } : Autoscaler).Orderly base :=
            h.terminateGpuWorker instanceId fun _ hcause => by cases hcause
          exact hreaped.stage (hstands _)

theorem Orderly.launch (hbase : base.Sound) (h : s.Orderly base) {policy : ShapePolicy} {now : Rat}
    {fleet : FleetSnapshot} {managed : List String} {action : ScaleAction}
    (hstands : s.Stands base (.applying policy now fleet managed action))
    (hlaunches : action.launches = true) {instanceId : String} (hfresh : instanceId ∉ s.usedIds)
    (launchTime : Rat) :
    (s.launch policy fleet (action = .launch) instanceId launchTime).Orderly base := by
  obtain ⟨-, hlaunch, hpaid, -⟩ := hstands
  obtain ⟨hsingle, hroom⟩ := hlaunch hlaunches
  have honDemand : (!decide (action = .launch)) = true → action = .launchOnDemand := by
    cases action <;> simp_all [ScaleAction.launches]
  constructor
  case ids => exact h.nodup_append hfresh
  case used =>
    intro w hw
    obtain hw | hw := List.mem_append.mp hw
    · exact List.mem_cons_of_mem _ (h.used w hw)
    · rw [List.mem_singleton.mp hw]
      exact List.mem_cons_self
  case recorded => exact fun engineId other hmem => List.mem_cons_of_mem _ (h.recorded _ _ hmem)
  case registered =>
    intro w hw hfull
    obtain hw | hw := List.mem_append.mp hw
    · exact h.registered w hw hfull
    · rw [List.mem_singleton.mp hw] at hfull
      exact absurd hfull (not_fullyIn hbase h hfresh)
  case blocked =>
    intro info hinfo
    cases hinfo
  case idleSince => exact h.idleSince
  case bounded =>
    constructor
    case launches =>
      refine List.forall_mem_cons.mpr ⟨⟨hsingle, hroom, fun hpays => ?_⟩, h.bounded.launches⟩
      obtain ⟨hfallback, hstreak, -⟩ := hpaid (honDemand hpays)
      exact ⟨hfallback, hstreak⟩
    case terminations => exact h.bounded.terminations
    case onDemand =>
      unfold paidWorkers Autoscaler.launch
      rw [List.countP_append]
      cases hspot : decide (action = .launch) with
      | true =>
          have hsame := h.bounded.onDemand
          unfold paidWorkers at hsame
          simpa using hsame
      | false =>
          obtain ⟨-, -, hless⟩ := hpaid (honDemand (by rw [hspot]; rfl))
          unfold paidWorkers at hless
          simp
          omega
  case stands => trivial

theorem Orderly.recordLaunchFailure (h : s.Orderly base) (now : Rat) (useSpot quota : Bool)
    (detail : String) : (s.recordLaunchFailure now useSpot quota detail).Orderly base := by
  unfold Autoscaler.recordLaunchFailure
  split
  case isTrue =>
    refine ⟨h.ids, h.used, h.recorded, h.registered, ?_, h.idleSince,
      ⟨h.bounded.launches, h.bounded.terminations, h.bounded.onDemand⟩, trivial⟩
    intro info hinfo
    obtain rfl := Option.some.inj hinfo
    unfold writeBlockedState
    split
    case h_1 before hbefore => exact Nat.succ_le_succ (h.blocked before hbefore)
    case h_2 => exact Nat.succ_le_succ (Nat.zero_le _)
  case isFalse =>
    exact ⟨h.ids, h.used, h.recorded, h.registered, h.blocked, h.idleSince,
      ⟨h.bounded.launches, h.bounded.terminations, h.bounded.onDemand⟩, trivial⟩

theorem Orderly.settle (h : s.Orderly base) {policy : ShapePolicy} {now : Rat}
    {fleet : FleetSnapshot} {managed : List String} {action : ScaleAction}
    (hstands : s.Stands base (.applying policy now fleet managed action)) :
    (s.settle policy now fleet managed action).Orderly base := by
  refine ⟨h.ids, h.used, h.recorded, h.registered, fun info hinfo => ?_, h.idleSince,
    ⟨h.bounded.launches, h.bounded.terminations, h.bounded.onDemand⟩, ?_⟩
  · cases hinfo
  · unfold Autoscaler.settle
    dsimp only
    split
    case isFalse => trivial
    case isTrue hterminate =>
      split
      case h_1 => trivial
      case h_2 => exact hstands.2.2.2 hterminate

theorem Orderly.check (h : s.Orderly base) {policy : ShapePolicy} {now : Rat}
    {fleet : FleetSnapshot} {target : String} {unchecked : List String}
    (hstands : s.Stands base (.draining policy now fleet target unchecked)) (expired : Bool) :
    (s.check policy now fleet target expired unchecked).Orderly base := by
  cases unchecked with
  | nil => exact h
  | cons engineId rest =>
      refine h.stage ?_
      split
      case isTrue => exact hstands
      case isFalse =>
        split
        case isTrue => trivial
        case isFalse => exact hstands

theorem Orderly.step (hbase : base.Sound) (h : s.Orderly base) (py : Conversions)
    (action : AutoscalerAction) : (s.next py base action).Orderly base := by
  have hstands := h.stands
  cases action with
  | startTick now overrides lagKnown =>
      unfold next
      dsimp only
      split
      · exact h.startTick hbase py now overrides lagKnown
      · exact h
  | scanFleet =>
      unfold next
      dsimp only
      split
      case h_1 hstage =>
        rw [hstage] at hstands
        exact h.scanFleet hstands
      case h_2 => exact h
  | reap raised =>
      unfold next
      dsimp only
      split
      · exact h.reap _ _ raised _
      · exact h
  | launchSucceeds instanceId launchTime =>
      unfold next
      dsimp only
      split
      case h_1 hstage =>
        split
        case isTrue hlaunch =>
          rw [hstage] at hstands
          exact h.launch hbase hstands hlaunch.1 hlaunch.2 launchTime
        case isFalse => exact h
      case h_2 => exact h
  | launchFails quota detail =>
      unfold next
      dsimp only
      split
      case h_1 =>
        split
        · exact h.recordLaunchFailure _ _ quota detail
        · exact h
      case h_2 => exact h
  | launchLockHeld =>
      unfold next
      dsimp only
      split
      case h_1 =>
        split
        · exact h.stage trivial
        · exact h
      case h_2 => exact h
  | settle =>
      unfold next
      dsimp only
      split
      case h_1 hstage =>
        split
        · exact h
        · rw [hstage] at hstands
          exact h.settle hstands
      case h_2 => exact h
  | check expired =>
      unfold next
      dsimp only
      split
      case h_1 hstage =>
        rw [hstage] at hstands
        exact h.check hstands expired
      case h_2 => exact h
  | terminate =>
      unfold next
      dsimp only
      split
      case h_1 policy now fleet target hstage =>
        rw [hstage] at hstands
        have hterminated : ({ s.terminateGpuWorker target (.scaledDown fleet) policy now with
            stage := .waiting } : Autoscaler).Orderly base :=
          h.terminateGpuWorker target fun fleet' hcause => by
            obtain rfl := Cause.scaledDown.inj hcause
            exact hstands
        exact hterminated.unmoved hbase rfl rfl rfl rfl rfl (Or.inl rfl) (Or.inr rfl) rfl rfl rfl
      case h_2 => exact h
  | enqueue engineId =>
      exact h.unmoved hbase rfl rfl rfl rfl rfl (Or.inl rfl) (Or.inl rfl) rfl rfl rfl
  | deliver d =>
      unfold next
      dsimp only
      split
      · exact h.unmoved hbase rfl rfl rfl rfl rfl (Or.inl rfl) (Or.inl rfl) rfl rfl rfl
      · exact h
  | transfer d owner =>
      unfold next
      dsimp only
      split
      · exact h.unmoved hbase rfl rfl rfl rfl rfl (Or.inl rfl) (Or.inl rfl) rfl rfl rfl
      · exact h
  | acknowledge d =>
      exact h.unmoved hbase rfl rfl rfl rfl rfl (Or.inl rfl) (Or.inl rfl) rfl rfl rfl
  | runs instanceId => exact h.runs hbase instanceId
  | register engineId instanceId =>
      unfold next
      dsimp only
      split
      case isTrue hworker => exact h.register hbase hworker
      case isFalse => exact h
  | lapse engineId instanceId => exact h.lapse hbase engineId instanceId
  | arrives worker =>
      unfold next
      dsimp only
      split
      case isTrue => exact h
      case isFalse hfresh => exact h.arrives hbase hfresh
  | vanishes instanceId => exact h.vanishes hbase instanceId
  | idleExpires => exact h.unmoved hbase rfl rfl rfl rfl rfl (Or.inl rfl) (Or.inr rfl) rfl rfl rfl
  | blockedExpires => exact h.unmoved hbase rfl rfl rfl rfl rfl (Or.inr rfl) (Or.inl rfl) rfl rfl rfl
  | cooldownExpires =>
      exact h.unmoved hbase rfl rfl rfl rfl rfl (Or.inl rfl) (Or.inl rfl) rfl rfl rfl

end Ticks

/-- Every run of ticks of a valid policy keeps the bounds. -/
theorem bounds_kept {py : Conversions} {d : Config} (hbase : ShapePolicy.fromDict py d = .ok base)
    {s₀ : Autoscaler} (h₀ : s₀.Fresh base)
    (run : ActionRun (Acts (next py base)) (fun _ _ => True) s₀ s) : s.Bounded base := by
  have hsound := (ShapePolicy.fromDict_eq_ok hbase).1
  have horderly : s.Orderly base :=
    run.invariant (h₀.orderly hsound) fun s action s' hs hstep _ => by
      obtain rfl := hstep
      exact hs.step hsound py action
  exact horderly.bounded

section Samples

/-- Conversions that are good enough for texts and numbers. -/
def plain : Conversions where
  str _ := ""
  repr _ := ""
  reprValue _ := ""
  int _ := .error "invalid literal"
  intTypeError _ := "not a number"
  notIterable _ := "not iterable"

def nemoDict : Config :=
  [("name", .str "nemo"), ("engines", .arr [.str "nemo"]),
    ("stream_engine_ids", .arr [.str "nemo"]), ("min_instances", .num 1),
    ("max_instances", .num 2)]

def nemoPolicy : ShapePolicy where
  name := "nemo"
  engines := ["nemo"]
  streamEngineIds := ["nemo"]
  tasksPerInstance := 20
  minInstances := 1
  maxInstances := 2
  scaleDownAfterS := 2100
  drainWaitS := 60
  bootTimeoutS := 1800
  gpuTypePreference := defaultGpuTypePreference
  fallbackToOnDemand := false
  maxOnDemand := 1

theorem nemoDict_valid : ShapePolicy.fromDict plain nemoDict = .ok nemoPolicy := by decide +kernel

def noWorkers : Autoscaler where
  workers := []
  usedIds := []
  lag _ := 0
  records _ := []
  deliveries := []
  idleSince := none
  blocked := none
  onDemandCooldown := false
  stage := .waiting
  ticks := []
  failedSpot := 0
  launches := []
  terminations := []

theorem noWorkers_fresh : noWorkers.Fresh nemoPolicy where
  waiting := rfl
  ids := List.nodup_nil
  used := List.forall_mem_nil _
  recorded _ _ h := by cases h
  registered := List.forall_mem_nil _
  streams := List.forall_mem_nil _
  others := List.forall_mem_nil _
  idleSince := rfl
  blocked := rfl
  launches := rfl
  terminations := rfl

/-- A worker is launched for the minimum and does not come up. -/
def wedgedBoot : List AutoscalerAction :=
  [.startTick 0 [] fun _ => true, .scanFleet, .launchSucceeds "i-1" 0,
    .startTick 1800 [] fun _ => true, .scanFleet, .reap false]

theorem bounds_sample :
    (wedgedBoot.foldl (next plain nemoPolicy) noWorkers).Bounded nemoPolicy :=
  bounds_kept nemoDict_valid noWorkers_fresh
    (ActionRun.of_permitted ⟨trivial, trivial, trivial, trivial, trivial, trivial, trivial⟩)

def manualWorker (instanceId : String) : Worker where
  instanceId := instanceId
  spot := true
  managedBy := "manual"
  running := false
  launchTime := 1
  ours := false
  registered := false

/-- The reaper leaves less than the minimum, and a tick launches beside workers that somebody else
has launched after its scan. -/
theorem bounds_exceeded :
    (¬ ∀ actions : List AutoscalerAction,
      ∀ t ∈ (actions.foldl (next plain nemoPolicy) noWorkers).terminations,
        t.policy.minInstances ≤ t.left.length) ∧
      ¬ ∀ actions : List AutoscalerAction,
        ∀ l ∈ (actions.foldl (next plain nemoPolicy) noWorkers).launches,
          (∀ w ∈ l.present, w.registered = true) ∧
            (l.present.length : Int) < l.policy.maxInstances := by
  constructor
  · intro h
    have hleft := h wedgedBoot
    revert hleft
    decide +kernel
  · intro h
    have hpresent := h [.startTick 0 [] fun _ => true, .scanFleet, .arrives (manualWorker "i-8"),
      .arrives (manualWorker "i-9"), .launchSucceeds "i-1" 1]
    revert hpresent
    decide +kernel

end Samples

end Autoscaler

end Dalston.Infra
