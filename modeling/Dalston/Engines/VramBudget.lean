import Dalston.Foundation.Dict

/-!
# Engine parameters for a budget of video memory

A calibration profile predicts the memory of a request from its batch size, its beam size and
its duration. From a budget the engine computes one parameter set for a single request and one
for several requests in flight.

## Implementation notes

The arithmetic is exact. What names the profile (engine, model, stage and GPU) is left out, and
so are the logged warnings.
-/

namespace Dalston.Engines.VramBudget

open Foundation

section Calibration

structure EngineVRAMParams where
  vadBatchSize : Int := 1
  vadMaxSpeechS : Rat := 60
  batchMaxInflight : Int := 1
  maxSessions : Int := 2
  maxDiarizeChunkS : Rat := 900
  diarizeOverlapS : Rat := 30
  peakEstimateMb : Int := 0
  headroomMb : Int := 0

inductive ProfileSource
  | calibrated
  | fallback
  | defaults
  deriving DecidableEq

structure AdaptiveVRAMParams where
  solo : EngineVRAMParams
  concurrent : EngineVRAMParams
  budgetMb : Int := 0
  profileSource : ProfileSource := .defaults

structure CalibrationProfile where
  cudaOverheadMb : Int := 650
  weightsMb : Int := 0
  frameworkOverheadMb : Int := 200
  safetyMargin : Rat := 3 / 20
  coefficients : Dict Rat := []

/-- `int(x)`. -/
def intOf (x : Rat) : Int := if x < 0 then ⌈x⌉ else ⌊x⌋

def defaultBeamSize : Rat := 5

/-- The largest batch for one request next to a fixed cost, one at least. -/
def soloBatch (available fixedCost alphaBatch : Rat) : Int :=
  if 0 < available - fixedCost ∧ 0 < alphaBatch then
    max 1 (intOf ((available - fixedCost) / alphaBatch))
  else 1

/-- How many requests of one cost go in, one at least. -/
def concurrentInflight (available activationPerRequest : Rat) : Int :=
  if 0 < activationPerRequest then max 1 (intOf (available / activationPerRequest)) else 1

def diarizeChunk (available alphaDuration : Rat) : Rat :=
  if 0 < alphaDuration then max 60 (available / alphaDuration) else 900

namespace CalibrationProfile

def overheadMb (p : CalibrationProfile) : Int :=
  p.cudaOverheadMb + p.weightsMb + p.frameworkOverheadMb

def headroom (p : CalibrationProfile) (budgetMb : Int) : Int :=
  intOf (budgetMb * p.safetyMargin)

def available (p : CalibrationProfile) (budgetMb : Int) : Int :=
  budgetMb - p.cudaOverheadMb - p.weightsMb - p.frameworkOverheadMb - p.headroom budgetMb

def computeDefaults (budgetMb : Int) : AdaptiveVRAMParams where
  solo := { vadBatchSize := 4, batchMaxInflight := 1, maxSessions := 2, maxDiarizeChunkS := 600 }
  concurrent :=
    { vadBatchSize := 1, batchMaxInflight := 2, maxSessions := 2, maxDiarizeChunkS := 600 }
  budgetMb
  profileSource := .defaults

def computeFromProfile (p : CalibrationProfile) (budgetMb : Int) : AdaptiveVRAMParams :=
  let available : Rat := p.available budgetMb
  if available ≤ 0 then computeDefaults budgetMb
  else
    let alphaBatch := p.coefficients.getD "alpha_batch" 55
    let alphaBeam := p.coefficients.getD "alpha_beam" 0
    let s := p.coefficients.getD "S" 0
    let beamCost := alphaBeam * defaultBeamSize
    let batch := soloBatch available (s + beamCost) alphaBatch
    let soloPeak := intOf (s + alphaBatch * batch + beamCost + p.overheadMb)
    let activationPerRequest := s + alphaBatch + beamCost
    let inflight := concurrentInflight available activationPerRequest
    let concurrentPeak := intOf (activationPerRequest * inflight + p.overheadMb)
    let maxDiarizeChunkS := diarizeChunk available (p.coefficients.getD "alpha_duration" 0)
    { solo :=
        { vadBatchSize := batch
          batchMaxInflight := 1
          maxSessions := 2
          maxDiarizeChunkS
          peakEstimateMb := soloPeak
          headroomMb := budgetMb - soloPeak }
      concurrent :=
        { vadBatchSize := batch
          batchMaxInflight := inflight
          maxSessions := max 2 inflight
          maxDiarizeChunkS
          peakEstimateMb := concurrentPeak
          headroomMb := budgetMb - concurrentPeak }
      budgetMb
      profileSource := .calibrated }

def computeAdaptiveParams (p : CalibrationProfile) (budgetMb : Int) : AdaptiveVRAMParams :=
  if p.coefficients = [] then computeDefaults budgetMb else p.computeFromProfile budgetMb

end CalibrationProfile

end Calibration

section CostModel

variable (p : CalibrationProfile) (budgetMb : Int)

/-- The fixed cost of a request: its base and the default beam. -/
def CalibrationProfile.fixedCost : Rat :=
  p.coefficients.getD "S" 0 + p.coefficients.getD "alpha_beam" 0 * defaultBeamSize

/-- What the profile predicts for one request. A coefficient it does not have adds nothing. -/
def requestMb (batchSize : Int) (durationS : Rat) : Rat :=
  p.coefficients.getD "S" 0 + p.coefficients.getD "alpha_batch" 0 * batchSize +
    p.coefficients.getD "alpha_beam" 0 * defaultBeamSize +
    p.coefficients.getD "alpha_duration" 0 * durationS

/-- The memory with all the requests in flight that the parameters allow. -/
def predictedMb (params : EngineVRAMParams) : Rat :=
  p.overheadMb + params.batchMaxInflight * requestMb p params.vadBatchSize params.maxDiarizeChunkS

/-- The prediction leaves the headroom of the budget free. -/
def FitsBudget (params : EngineVRAMParams) : Prop :=
  predictedMb p params ≤ budgetMb - p.headroom budgetMb

/-- One request of batch size one fits beside the overheads and, if the batch size costs
anything, a second one does not. A profile with a duration leaves no room for another cost. -/
def OneRequestFits : Prop :=
  let available : Rat := p.available budgetMb
  let perItem := p.coefficients.getD "alpha_batch" 0
  let assumed := p.coefficients.getD "alpha_batch" 55
  let perSecond := p.coefficients.getD "alpha_duration" 0
  (perSecond = 0 ∧ p.fixedCost + perItem ≤ available ∧
      (perItem = 0 ∨ available < 2 * (p.fixedCost + assumed))) ∨
    (0 < perSecond ∧ p.fixedCost + perItem = 0 ∧ 60 * perSecond ≤ available ∧
      (assumed = 0 ∨ available < 2 * assumed))

instance (params : EngineVRAMParams) : Decidable (FitsBudget p budgetMb params) :=
  inferInstanceAs (Decidable (_ ≤ _))

instance : Decidable (OneRequestFits p budgetMb) := inferInstanceAs (Decidable (_ ∨ _))

end CostModel

section Arithmetic

variable {available fixedCost alphaBatch activation : Rat}

theorem intOf_of_nonneg {x : Rat} (h : 0 ≤ x) : intOf x = ⌊x⌋ := if_neg (not_lt.mpr h)

theorem one_le_soloBatch (available fixedCost alphaBatch : Rat) :
    1 ≤ soloBatch available fixedCost alphaBatch := by
  rw [soloBatch]
  split_ifs
  · exact le_max_left _ _
  · exact le_rfl

/-- A batch for which one item fits is the largest that fits. -/
theorem soloBatch_spec (hbatch : 0 < alphaBatch) (hfits : fixedCost + alphaBatch ≤ available) :
    fixedCost + alphaBatch * soloBatch available fixedCost alphaBatch ≤ available ∧
      available < fixedCost + alphaBatch * (soloBatch available fixedCost alphaBatch + 1) := by
  have hroom : 0 < available - fixedCost := by linarith
  have hratio : 1 ≤ (available - fixedCost) / alphaBatch := by
    rw [le_div_iff₀ hbatch]
    linarith
  have hone : 1 ≤ ⌊(available - fixedCost) / alphaBatch⌋ :=
    Int.le_floor.mpr (by exact_mod_cast hratio)
  have hbatchSize : soloBatch available fixedCost alphaBatch =
      ⌊(available - fixedCost) / alphaBatch⌋ := by
    rw [soloBatch, if_pos ⟨hroom, hbatch⟩, intOf_of_nonneg (by linarith), max_eq_right hone]
  have hlow := Int.floor_le ((available - fixedCost) / alphaBatch)
  have hhigh := Int.lt_floor_add_one ((available - fixedCost) / alphaBatch)
  rw [hbatchSize]
  rw [le_div_iff₀ hbatch] at hlow
  rw [div_lt_iff₀ hbatch] at hhigh
  constructor <;> linarith

theorem one_le_concurrentInflight (available activation : Rat) :
    1 ≤ concurrentInflight available activation := by
  rw [concurrentInflight]
  split_ifs
  · exact le_max_left _ _
  · exact le_rfl

theorem concurrentInflight_mul_le (hfits : activation ≤ available) (hpos : 0 ≤ activation) :
    concurrentInflight available activation * activation ≤ available := by
  rw [concurrentInflight]
  split_ifs with h
  · have hratio : 0 ≤ available / activation := div_nonneg (hpos.trans hfits) hpos
    have hone : 1 ≤ ⌊available / activation⌋ := by
      rw [Int.le_floor, Int.cast_one, le_div_iff₀ h]
      linarith
    rw [intOf_of_nonneg hratio, max_eq_right hone, ← le_div_iff₀ h]
    exact Int.floor_le _
  · rw [Int.cast_one, one_mul]
    exact hfits

/-- More than one request goes in exactly if two of them fit. -/
theorem concurrentInflight_eq_one_iff (havailable : 0 < available) (hpos : 0 ≤ activation) :
    concurrentInflight available activation = 1 ↔ activation = 0 ∨ available < 2 * activation := by
  rw [concurrentInflight]
  split_ifs with h
  · rw [intOf_of_nonneg (div_nonneg havailable.le hpos), max_eq_left_iff, or_iff_right h.ne',
      ← Int.lt_add_one_iff, Int.floor_lt, div_lt_iff₀ h]
    norm_num
  · exact iff_of_true rfl (Or.inl (le_antisymm (not_lt.mp h) hpos))

variable {perItem perSecond cost : Rat}

/-- Both sets fit, where no duration counts. `perItem` is the coefficient of the profile, which
the engine replaces by `alphaBatch` if there is none. -/
theorem batches_fit_iff (havailable : 0 < available) (hfixed : 0 ≤ fixedCost)
    (hbatch : 0 ≤ alphaBatch) (hown : perItem = alphaBatch ∨ perItem = 0)
    (hcost : cost = fixedCost + perItem * soloBatch available fixedCost alphaBatch) :
    (cost ≤ available ∧
        concurrentInflight available (fixedCost + alphaBatch) * cost ≤ available) ↔
      fixedCost + perItem ≤ available ∧
        (perItem = 0 ∨ available < 2 * (fixedCost + alphaBatch)) := by
  have hactivation : 0 ≤ fixedCost + alphaBatch := by linarith
  have hsize : (1 : Rat) ≤ soloBatch available fixedCost alphaBatch := by
    exact_mod_cast one_le_soloBatch available fixedCost alphaBatch
  have hone := concurrentInflight_eq_one_iff havailable hactivation
  have hitem : 0 ≤ perItem := by rcases hown with rfl | rfl <;> linarith
  constructor
  · rintro ⟨hsolo, hconcurrent⟩
    refine ⟨by nlinarith, ?_⟩
    by_contra hboth
    obtain ⟨hne, htwo⟩ := not_or.mp hboth
    obtain rfl := hown.resolve_right hne
    have hpos : 0 < perItem := lt_of_le_of_ne hitem (Ne.symm hne)
    obtain ⟨-, hmost⟩ := soloBatch_spec hpos (by linarith : fixedCost + perItem ≤ available)
    -- two requests are in flight, and each takes more than half of what is there
    have hinflight : (2 : Rat) ≤ concurrentInflight available (fixedCost + perItem) := by
      have hlow := one_le_concurrentInflight available (fixedCost + perItem)
      have hnot : concurrentInflight available (fixedCost + perItem) ≠ 1 := fun heq => by
        rcases hone.mp heq with hzero | hlt
        · linarith
        · exact htwo hlt
      have htwoInt : 2 ≤ concurrentInflight available (fixedCost + perItem) := by omega
      exact_mod_cast htwoInt
    have hhalf : available < 2 * cost := by
      rw [hcost]
      linarith
    have hcostPos : 0 ≤ cost := by linarith
    have := mul_le_mul_of_nonneg_right hinflight hcostPos
    linarith
  · rintro ⟨hfits, hcase⟩
    by_cases hzero : perItem = 0
    · subst hzero
      rw [zero_mul, add_zero] at hcost
      rw [add_zero] at hfits
      subst hcost
      refine ⟨hfits, ?_⟩
      have hinflight : (0 : Rat) ≤ concurrentInflight available (cost + alphaBatch) := by
        have := one_le_concurrentInflight available (cost + alphaBatch)
        exact_mod_cast (by omega : 0 ≤ concurrentInflight available (cost + alphaBatch))
      by_cases hsecond : cost + alphaBatch ≤ available
      · have hall := concurrentInflight_mul_le hsecond hactivation
        exact (mul_le_mul_of_nonneg_left (by linarith) hinflight).trans hall
      · rw [hone.mpr (Or.inr (by linarith)), Int.cast_one, one_mul]
        exact hfits
    · obtain rfl := hown.resolve_right hzero
      have hpos : 0 < perItem := lt_of_le_of_ne hitem (Ne.symm hzero)
      have hsolo : cost ≤ available := by
        rw [hcost]
        exact (soloBatch_spec hpos hfits).1
      rw [hone.mpr (Or.inr (hcase.resolve_left hzero)), Int.cast_one, one_mul]
      exact ⟨hsolo, hsolo⟩

/-- Both sets fit, where the duration counts: the longest chunk alone takes all there is. -/
theorem durations_fit_iff (havailable : 0 < available) (hfixed : 0 ≤ fixedCost)
    (hbatch : 0 ≤ alphaBatch) (hown : perItem = alphaBatch ∨ perItem = 0)
    (hduration : 0 < perSecond)
    (hcost : cost = fixedCost + perItem * soloBatch available fixedCost alphaBatch +
      perSecond * diarizeChunk available perSecond) :
    (cost ≤ available ∧
        concurrentInflight available (fixedCost + alphaBatch) * cost ≤ available) ↔
      fixedCost + perItem = 0 ∧ 60 * perSecond ≤ available ∧
        (alphaBatch = 0 ∨ available < 2 * alphaBatch) := by
  have hactivation : 0 ≤ fixedCost + alphaBatch := by linarith
  have hsize : (1 : Rat) ≤ soloBatch available fixedCost alphaBatch := by
    exact_mod_cast one_le_soloBatch available fixedCost alphaBatch
  have hone := concurrentInflight_eq_one_iff havailable hactivation
  have hitem : 0 ≤ perItem := by rcases hown with rfl | rfl <;> linarith
  have hchunk : perSecond * diarizeChunk available perSecond =
      max (60 * perSecond) available := by
    rw [diarizeChunk, if_pos hduration, mul_max_of_nonneg _ _ hduration.le,
      mul_div_cancel₀ _ hduration.ne', mul_comm]
  rw [hchunk] at hcost
  have hleft := le_max_left (60 * perSecond) available
  have hright := le_max_right (60 * perSecond) available
  have hproduct : perItem ≤ perItem * soloBatch available fixedCost alphaBatch :=
    le_mul_of_one_le_right hitem hsize
  constructor
  · rintro ⟨hsolo, hconcurrent⟩
    have hnothing : fixedCost + perItem = 0 := by linarith
    refine ⟨hnothing, by linarith, ?_⟩
    have hzero : fixedCost = 0 := by linarith
    have hinflight : concurrentInflight available (fixedCost + alphaBatch) = 1 := by
      have hlow := one_le_concurrentInflight available (fixedCost + alphaBatch)
      by_contra hne
      have htwoInt : 2 ≤ concurrentInflight available (fixedCost + alphaBatch) := by omega
      have htwo : (2 : Rat) ≤ concurrentInflight available (fixedCost + alphaBatch) := by
        exact_mod_cast htwoInt
      have := mul_le_mul_of_nonneg_right htwo (by linarith : 0 ≤ cost)
      linarith
    rw [hone, hzero, zero_add] at hinflight
    exact hinflight
  · rintro ⟨hnothing, hshortest, hcase⟩
    have hzero : fixedCost = 0 := by linarith
    have hnoItem : perItem = 0 := by linarith
    have hall : cost = available := by
      rw [hcost, hzero, hnoItem, zero_mul, zero_add, zero_add, max_eq_right hshortest]
    have hinflight : concurrentInflight available (fixedCost + alphaBatch) = 1 := by
      rw [hone, hzero, zero_add]
      exact hcase
    rw [hinflight, hall, Int.cast_one, one_mul]
    exact ⟨le_rfl, le_rfl⟩

end Arithmetic

section Fits

variable {p : CalibrationProfile} {budgetMb : Int}

theorem fixedCost_eq (p : CalibrationProfile) :
    p.coefficients.getD "S" 0 + p.coefficients.getD "alpha_beam" 0 * defaultBeamSize =
      p.fixedCost := rfl

theorem coefficient_nonneg (hcoefficients : ∀ kv ∈ p.coefficients, 0 ≤ kv.2) (key : String)
    {default : Rat} (hdefault : 0 ≤ default) : 0 ≤ p.coefficients.getD key default :=
  Dict.getD_of (fun _ h => hcoefficients _ (Dict.mem_of_get? h)) hdefault

/-- The engine reads the batch coefficient of the profile, or assumes one. -/
theorem alphaBatch_own (p : CalibrationProfile) :
    p.coefficients.getD "alpha_batch" 0 = p.coefficients.getD "alpha_batch" 55 ∨
      p.coefficients.getD "alpha_batch" 0 = 0 := by
  simp only [Dict.getD]
  cases p.coefficients.get? "alpha_batch" with
  | none => exact Or.inr rfl
  | some _ => exact Or.inl rfl

/-- Calibrated parameters come from an available rest, and are those of the profile. -/
theorem calibrated_params
    (h : (p.computeAdaptiveParams budgetMb).profileSource = .calibrated) :
    (0 : Rat) < p.available budgetMb ∧
      p.computeAdaptiveParams budgetMb = p.computeFromProfile budgetMb := by
  rw [CalibrationProfile.computeAdaptiveParams] at h ⊢
  split_ifs at h ⊢
  · cases h
  · refine ⟨?_, rfl⟩
    by_contra hnone
    rw [CalibrationProfile.computeFromProfile, if_pos (not_lt.mp hnone)] at h
    cases h

theorem fitsBudget_iff {params : EngineVRAMParams} :
    FitsBudget p budgetMb params ↔
      params.batchMaxInflight * requestMb p params.vadBatchSize params.maxDiarizeChunkS ≤
        p.available budgetMb := by
  rw [FitsBudget, predictedMb, CalibrationProfile.available, CalibrationProfile.overheadMb]
  push_cast
  constructor <;> intro h <;> linarith

/-- The calibrated parameter sets keep the headroom free exactly if one request fits and the
costs leave no room for a second one. -/
theorem params_fit_iff (hcoefficients : ∀ kv ∈ p.coefficients, 0 ≤ kv.2)
    (hcalibrated : (p.computeAdaptiveParams budgetMb).profileSource = .calibrated) :
    (FitsBudget p budgetMb (p.computeAdaptiveParams budgetMb).solo ∧
        FitsBudget p budgetMb (p.computeAdaptiveParams budgetMb).concurrent) ↔
      OneRequestFits p budgetMb := by
  obtain ⟨havailable, hparams⟩ := calibrated_params hcalibrated
  have hfixed : 0 ≤ p.fixedCost := by
    have hbase := coefficient_nonneg hcoefficients "S" le_rfl
    have hbeam := coefficient_nonneg hcoefficients "alpha_beam" le_rfl
    rw [CalibrationProfile.fixedCost, defaultBeamSize]
    linarith
  have hbatch : 0 ≤ p.coefficients.getD "alpha_batch" 55 :=
    coefficient_nonneg hcoefficients _ (by norm_num)
  have hduration : 0 ≤ p.coefficients.getD "alpha_duration" 0 :=
    coefficient_nonneg hcoefficients _ le_rfl
  rw [hparams, CalibrationProfile.computeFromProfile, if_neg (not_le.mpr havailable),
    fitsBudget_iff, fitsBudget_iff, OneRequestFits]
  simp only [Int.cast_one, one_mul, add_right_comm _ (p.coefficients.getD "alpha_batch" 55) _,
    fixedCost_eq]
  rcases hduration.eq_or_lt' with hnone | hpos
  · have hcost : ∀ batch duration, requestMb p batch duration =
        p.fixedCost + p.coefficients.getD "alpha_batch" 0 * batch := by
      intro batch duration
      rw [requestMb, CalibrationProfile.fixedCost, hnone]
      ring
    rw [batches_fit_iff havailable hfixed hbatch (alphaBatch_own p) (hcost _ _)]
    simp [hnone]
  · have hcost : ∀ batch duration, requestMb p batch duration =
        p.fixedCost + p.coefficients.getD "alpha_batch" 0 * batch +
          p.coefficients.getD "alpha_duration" 0 * duration := by
      intro batch duration
      rw [requestMb, CalibrationProfile.fixedCost]
      ring
    rw [durations_fit_iff havailable hfixed hbatch (alphaBatch_own p) hpos (hcost _ _)]
    simp [hpos, hpos.ne']

/-- A profile of a transcription engine. -/
def whisperProfile : CalibrationProfile where
  coefficients := [("S", 200), ("alpha_batch", 100)]

/-- With 1500 MB there is room for one request. -/
theorem small_budget_fits :
    FitsBudget whisperProfile 1500 (whisperProfile.computeAdaptiveParams 1500).solo ∧
      FitsBudget whisperProfile 1500 (whisperProfile.computeAdaptiveParams 1500).concurrent :=
  (params_fit_iff (by decide +kernel) (by decide +kernel)).mpr (by decide +kernel)

/-- With 4000 MB eight requests are allowed at once, each with the batch of a single one. -/
theorem large_budget_exceeded :
    (∀ kv ∈ whisperProfile.coefficients, 0 ≤ kv.2) ∧
      (whisperProfile.computeAdaptiveParams 4000).profileSource = .calibrated ∧
      (whisperProfile.computeAdaptiveParams 4000).concurrent.vadBatchSize = 23 ∧
      (whisperProfile.computeAdaptiveParams 4000).concurrent.batchMaxInflight = 8 ∧
      predictedMb whisperProfile (whisperProfile.computeAdaptiveParams 4000).concurrent = 20850 ∧
      ¬ FitsBudget whisperProfile 4000 (whisperProfile.computeAdaptiveParams 4000).concurrent := by
  decide +kernel

end Fits

end Dalston.Engines.VramBudget
