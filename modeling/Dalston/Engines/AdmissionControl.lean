import Dalston.Foundation.Actions

/-!
# Admission of batch and realtime work

An engine admits batch tasks and realtime sessions against one capacity, a part of which is
reserved for sessions. A batch task is turned away when it would use a reserved slot, a session
only when no slot is left.

## Implementation notes

The counters are Python integers, and so are the limits, which come from environment variables
without a check. Every operation holds the controller's lock, so an interleaving is a sequence of
operations. Reconfiguration is left out.
-/

namespace Dalston.Engines.AdmissionControl

open Foundation

structure AdmissionConfig where
  rtReservation : Int
  batchMaxInflight : Int
  totalCapacity : Int

structure AdmissionController where
  config : AdmissionConfig
  activeBatch : Int
  activeRt : Int

namespace AdmissionController

def new (config : AdmissionConfig) : AdmissionController := ⟨config, 0, 0⟩

def available (c : AdmissionController) : Int :=
  c.config.totalCapacity - (c.activeBatch + c.activeRt)

/-- `_can_accept_batch_unlocked`. -/
def canAcceptBatch (c : AdmissionController) : Bool :=
  if c.config.batchMaxInflight ≤ c.activeBatch then false
  else if c.available ≤ 0 then false
  else if c.config.rtReservation ≤ c.activeRt then true
  else c.config.rtReservation - c.activeRt < c.available

/-- `_can_accept_rt_unlocked`. -/
def canAcceptRt (c : AdmissionController) : Bool :=
  c.activeBatch + c.activeRt < c.config.totalCapacity

def admitBatch (c : AdmissionController) : Bool × AdmissionController :=
  if c.canAcceptBatch then (true, { c with activeBatch := c.activeBatch + 1 }) else (false, c)

def admitRt (c : AdmissionController) : Bool × AdmissionController :=
  if c.canAcceptRt then (true, { c with activeRt := c.activeRt + 1 }) else (false, c)

def releaseBatch (c : AdmissionController) : AdmissionController :=
  { c with activeBatch := max 0 (c.activeBatch - 1) }

def releaseRt (c : AdmissionController) : AdmissionController :=
  { c with activeRt := max 0 (c.activeRt - 1) }

end AdmissionController

inductive Operation
  | admitBatch
  | admitRt
  | releaseBatch
  | releaseRt
  deriving DecidableEq

/-- A controller, and what was asked of it: each operation with whether it had an effect. -/
structure Traffic where
  controller : AdmissionController
  log : List (Operation × Bool)

namespace Traffic

def start (config : AdmissionConfig) : Traffic := ⟨.new config, []⟩

def next (s : Traffic) : Operation → Traffic
  | .admitBatch =>
      ⟨s.controller.admitBatch.2, (.admitBatch, s.controller.admitBatch.1) :: s.log⟩
  | .admitRt => ⟨s.controller.admitRt.2, (.admitRt, s.controller.admitRt.1) :: s.log⟩
  | .releaseBatch => ⟨s.controller.releaseBatch, (.releaseBatch, true) :: s.log⟩
  | .releaseRt => ⟨s.controller.releaseRt, (.releaseRt, true) :: s.log⟩

/-- How often the operation has had its effect. -/
def done (s : Traffic) (op : Operation) : Nat := s.log.count (op, true)

/-- A release matches an admission that no release has matched before. -/
def Matched (s : Traffic) : Operation → Prop
  | .releaseBatch => s.done .releaseBatch < s.done .admitBatch
  | .releaseRt => s.done .releaseRt < s.done .admitRt
  | .admitBatch | .admitRt => True

instance (s : Traffic) : ∀ op, Decidable (s.Matched op)
  | .releaseBatch | .releaseRt => inferInstanceAs (Decidable (_ < _))
  | .admitBatch | .admitRt => isTrue trivial

abbrev Run (config : AdmissionConfig) : Traffic → Prop :=
  ActionRun (Acts next) Matched (start config)

end Traffic

/-- What the limits promise of the counters. -/
structure WithinLimits (c : AdmissionController) : Prop where
  batch : c.activeBatch ≤ c.config.totalCapacity - c.config.rtReservation
  total : c.activeBatch + c.activeRt ≤ max c.config.totalCapacity 0
  reserved : c.activeRt < c.config.rtReservation → c.admitRt.1 = true
  batch_nonneg : 0 ≤ c.activeBatch
  rt_nonneg : 0 ≤ c.activeRt

namespace AdmissionController

variable {c : AdmissionController}

theorem canAcceptBatch_iff : c.canAcceptBatch ↔
    c.activeBatch < c.config.batchMaxInflight ∧ 0 < c.available ∧
      (c.config.rtReservation ≤ c.activeRt ∨
        c.config.rtReservation - c.activeRt < c.available) := by
  rw [canAcceptBatch]
  split_ifs <;> simp <;> omega

theorem canAcceptRt_iff :
    c.canAcceptRt ↔ c.activeBatch + c.activeRt < c.config.totalCapacity := by
  simp [canAcceptRt]

theorem admitted_rt_iff : c.admitRt.1 = true ↔ c.canAcceptRt := by
  rw [admitRt]
  split_ifs with h <;> simp [h]

end AdmissionController

theorem Traffic.done_log (s : Traffic) (c : AdmissionController) (op' op : Operation) (b : Bool) :
    (⟨c, (op', b) :: s.log⟩ : Traffic).done op =
      s.done op + if op' = op ∧ b = true then 1 else 0 := by
  simp [Traffic.done, List.count_cons]

/-- The counters are what was admitted and not released, and keep to their bounds. -/
structure Counted (s : Traffic) : Prop where
  batch : s.controller.activeBatch + s.done .releaseBatch = s.done .admitBatch
  rt : s.controller.activeRt + s.done .releaseRt = s.done .admitRt
  batch_nonneg : 0 ≤ s.controller.activeBatch
  rt_nonneg : 0 ≤ s.controller.activeRt
  batch_room :
    s.controller.activeBatch ≤
      s.controller.config.totalCapacity - s.controller.config.rtReservation
  room : s.controller.activeBatch + s.controller.activeRt ≤ max s.controller.config.totalCapacity 0

namespace Counted

variable {s : Traffic}

theorem start {config : AdmissionConfig} (h : config.rtReservation ≤ config.totalCapacity) :
    Counted (Traffic.start config) where
  batch := rfl
  rt := rfl
  batch_nonneg := le_refl 0
  rt_nonneg := le_refl 0
  batch_room := sub_nonneg.mpr h
  room := le_max_right _ _

/-- A rejected request changes nothing. -/
theorem rejected (h : Counted s) (op : Operation) :
    Counted ⟨s.controller, (op, false) :: s.log⟩ where
  batch := by simpa [Traffic.done_log] using h.batch
  rt := by simpa [Traffic.done_log] using h.rt
  batch_nonneg := h.batch_nonneg
  rt_nonneg := h.rt_nonneg
  batch_room := h.batch_room
  room := h.room

theorem admitBatch (h : Counted s) : Counted (s.next .admitBatch) := by
  obtain ⟨hbatch, hrt, hbatch₀, hrt₀, hbatchRoom, hroom⟩ := id h
  simp only [Traffic.next, AdmissionController.admitBatch]
  split
  · rename_i haccept
    obtain ⟨-, havailable, hreserved⟩ := AdmissionController.canAcceptBatch_iff.mp haccept
    simp only [AdmissionController.available] at havailable hreserved
    -- with the reservation filled the sessions leave the room, else the free slots do
    refine ⟨?_, ?_, by dsimp only; omega, hrt₀, by dsimp only; omega, by dsimp only; omega⟩
    · simp [Traffic.done_log]
      omega
    · simpa [Traffic.done_log] using hrt
  · exact h.rejected .admitBatch

theorem admitRt (h : Counted s) : Counted (s.next .admitRt) := by
  obtain ⟨hbatch, hrt, hbatch₀, hrt₀, hbatchRoom, hroom⟩ := id h
  simp only [Traffic.next, AdmissionController.admitRt]
  split
  · rename_i haccept
    have havailable := AdmissionController.canAcceptRt_iff.mp haccept
    refine ⟨?_, ?_, hbatch₀, by dsimp only; omega, hbatchRoom, by dsimp only; omega⟩
    · simpa [Traffic.done_log] using hbatch
    · simp [Traffic.done_log]
      omega
  · exact h.rejected .admitRt

theorem releaseBatch (h : Counted s) (hmatched : s.Matched .releaseBatch) :
    Counted (s.next .releaseBatch) := by
  have hmatched' : s.done .releaseBatch < s.done .admitBatch := hmatched
  obtain ⟨hbatch, hrt, hbatch₀, hrt₀, hbatchRoom, hroom⟩ := h
  -- the counter is positive, so that it is not cut off at zero
  have hreleased : max 0 (s.controller.activeBatch - 1) = s.controller.activeBatch - 1 := by omega
  simp only [Traffic.next, AdmissionController.releaseBatch, hreleased]
  refine ⟨?_, ?_, by dsimp only; omega, hrt₀, by dsimp only; omega, by dsimp only; omega⟩
  · simp [Traffic.done_log]
    omega
  · simpa [Traffic.done_log] using hrt

theorem releaseRt (h : Counted s) (hmatched : s.Matched .releaseRt) :
    Counted (s.next .releaseRt) := by
  have hmatched' : s.done .releaseRt < s.done .admitRt := hmatched
  obtain ⟨hbatch, hrt, hbatch₀, hrt₀, hbatchRoom, hroom⟩ := h
  have hreleased : max 0 (s.controller.activeRt - 1) = s.controller.activeRt - 1 := by omega
  simp only [Traffic.next, AdmissionController.releaseRt, hreleased]
  refine ⟨?_, ?_, hbatch₀, by dsimp only; omega, hbatchRoom, by dsimp only; omega⟩
  · simpa [Traffic.done_log] using hbatch
  · simp [Traffic.done_log]
    omega

theorem next (h : Counted s) {op : Operation} (hmatched : s.Matched op) : Counted (s.next op) := by
  cases op with
  | admitBatch => exact h.admitBatch
  | admitRt => exact h.admitRt
  | releaseBatch => exact h.releaseBatch hmatched
  | releaseRt => exact h.releaseRt hmatched

/-- A session is rejected only when the batch tasks leave no room, and they leave the reserved
slots. -/
theorem withinLimits (h : Counted s) : WithinLimits s.controller where
  batch := h.batch_room
  total := h.room
  reserved hreserved := by
    have hbatch := h.batch_room
    rw [AdmissionController.admitted_rt_iff, AdmissionController.canAcceptRt_iff]
    omega
  batch_nonneg := h.batch_nonneg
  rt_nonneg := h.rt_nonneg

end Counted

theorem config_next (s : Traffic) (op : Operation) :
    (s.next op).controller.config = s.controller.config := by
  cases op with
  | admitBatch =>
      simp only [Traffic.next, AdmissionController.admitBatch]
      split <;> rfl
  | admitRt =>
      simp only [Traffic.next, AdmissionController.admitRt]
      split <;> rfl
  | releaseBatch | releaseRt => rfl

/-- Whatever is admitted and released in which order, the counters keep to the limits of the
configuration. -/
theorem admissions_within_limits {config : AdmissionConfig} {s : Traffic}
    (h : config.rtReservation ≤ config.totalCapacity) (run : Traffic.Run config s) :
    s.controller.config = config ∧ WithinLimits s.controller := by
  have hkept := run.invariant (I := fun s => s.controller.config = config ∧ Counted s)
    ⟨rfl, Counted.start h⟩ (by
      rintro s op _ ⟨hconfig, hcounted⟩ rfl hmatched
      exact ⟨(config_next s op).trans hconfig, hcounted.next hmatched⟩)
  exact ⟨hkept.1, hkept.2.withinLimits⟩

/-- The default limits. -/
def defaultConfig : AdmissionConfig := ⟨2, 4, 6⟩

/-- Batch tasks fill what is not reserved, and sessions take the rest. -/
def fullEngine : List Operation :=
  [.admitBatch, .admitBatch, .admitBatch, .admitBatch, .admitBatch, .admitRt, .admitRt, .admitRt,
    .releaseBatch, .admitRt]

theorem fullEngine_within_limits :
    (fullEngine.foldl Traffic.next (.start defaultConfig)).controller.config = defaultConfig ∧
      WithinLimits (fullEngine.foldl Traffic.next (.start defaultConfig)).controller :=
  admissions_within_limits (by decide) (.of_permitted (by decide))

/-- A negative capacity admits nothing, and nothing is more than it. -/
theorem negative_capacity_exceeded : ¬ ∀ (config : AdmissionConfig) (s : Traffic),
    config.rtReservation ≤ config.totalCapacity → Traffic.Run config s →
      s.controller.activeBatch + s.controller.activeRt ≤ config.totalCapacity := by
  intro h
  exact absurd (h ⟨-1, 4, -1⟩ _ (le_refl _) (.refl _)) (by decide)

end Dalston.Engines.AdmissionControl
