import Dalston.Foundation.Table
import Dalston.Gateway.ModelRegistry
import Dalston.Orchestrator.Timestamps
import Dalston.Registry.Records

/-!
# Engine selection

The engine of a stage is the engine of the model that the job names, the engine
that the job names, or the best of the live engines of the stage. An engine
that may be started on demand is taken from the catalog when no live one will
do. A model-backed stage also gets the best downloaded model of its engine.

## Implementation notes

A selection reads the registry, the catalog and the table of models once. A
database session is always given. Rates are rational numbers, and the lower
case of a text is an argument. Messages of errors are left out, their data is
not.
-/

namespace Dalston.Orchestrator.EngineSelector

open Foundation Model Registry
open Gateway.Models (DownloadStatus)

/-- The columns of a row of `models` that a selection looks at. -/
structure ModelRow where
  id : String
  engineId : String
  loadedModelId : String
  stage : String
  status : DownloadStatus
  sizeBytes : Option Nat
  source : Option String
  languages : Option (List String)

/-- An engine that could be started. -/
structure CatalogEntry where
  engineId : String
  capabilities : EngineCapabilities
  onDemand : Bool

/-- The registered engines, listed by stage and by engine in any order. Every write of a record
carries a heartbeat. -/
structure EngineRegistry where
  records : List EngineRecord
  getByStage : String → List EngineRecord
  getByEngineId : String → List EngineRecord
  mem_getByStage : ∀ stage r, r ∈ getByStage stage ↔ r ∈ records ∧ r.stage = stage
  mem_getByEngineId : ∀ engineId r, r ∈ getByEngineId engineId ↔ r ∈ records ∧ r.engineId = engineId
  heartbeat : ∀ r ∈ records, r.lastHeartbeat.isSome

/-- What a selection reads. -/
structure SelectionEnv where
  now : Time
  registry : EngineRegistry
  catalog : Table CatalogEntry.engineId
  models : Table ModelRow.id
  /-- `text.lower()`. -/
  lower : String → String

structure Requirements where
  language : Option String
  streaming : Bool

inductive SelectionFailure
  | modelSelection (code stage modelId : String) (engineId detail : Option String)
  | noCapableEngine (stage : String) (requirements : Requirements)
      (candidates : List EngineRecord) (catalogAlternatives : List CatalogEntry)
  | noDownloadedModel (engineId stage : String) (attemptedEngineIds : List String)
  /-- A parameter that is used as a text is none. -/
  | notText (key : String)

/-- `EngineSelectionResult`. -/
structure EngineChoice where
  engineId : String
  capabilities : EngineCapabilities
  selectionReason : String
  loadedModelId : Option String := none
  onDemand : Bool := false

def MODEL_BACKED_STAGES : List String := ["transcribe", "diarize", "align", "pii_detect"]

/-- `status` of a row as it is written in the table. -/
def statusText : DownloadStatus → String
  | .notDownloaded => "not_downloaded"
  | .downloading => "downloading"
  | .ready => "ready"
  | .failed => "failed"

/-- `sorted(items, key=score, reverse=True)`. -/
def bestFirst {A P : Type} [LinearOrder P] (score : A → P) (items : List A) : List A :=
  items.insertionSort fun a b => score b ≤ score a

/-- `EngineCapabilities` of an engine that declares none. -/
def unknownCapabilities (engineId stage : String) : EngineCapabilities :=
  { engineId, version := "unknown", stages := [stage] }

/-- `_meets_requirements` and `_matches_requirements`. -/
def meetsRequirements (caps : EngineCapabilities) (requirements : Requirements) : Bool :=
  !(requirements.streaming && !caps.supportsNativeStreaming)

/-- The first available instance of an engine, or the first one. -/
def EngineRegistry.getEngine (registry : EngineRegistry) (now : Time) (engineId : String) :
    Option EngineRecord :=
  match registry.getByEngineId engineId with
  | [] => none
  | first :: rest => some (((first :: rest).find? (·.isAvailable now)).getD first)

def findEngines (catalog : Table CatalogEntry.engineId) (stage : String)
    (requirements : Requirements) : List CatalogEntry :=
  catalog.rows.filter fun entry =>
    stage ∈ entry.capabilities.stages && meetsRequirements entry.capabilities requirements

/-- `model.source or model.id`. -/
def ModelRow.sourceId (model : ModelRow) : String :=
  (EngineRecord.nonempty model.source).getD model.id

/-- `_resolve_loaded_model_id`. -/
def resolveLoadedModelId (model : ModelRow) (stage : String) : String :=
  if stage = "transcribe" ∧ model.engineId = "onnx" then model.loadedModelId
  else if stage = "transcribe" then model.sourceId
  else model.loadedModelId

/-- `caps.rtf_gpu`, when it is not zero. -/
def gpuRate (caps : EngineCapabilities) : Option Rat := caps.rtfGpu.filter (· ≠ 0)

/-- The order of `_rank_capable_engines`. -/
def engineScore (engine : EngineRecord) : Nat ×ₗ Nat ×ₗ Rat :=
  match engine.capabilities with
  | none => toLex (0, toLex (0, -999))
  | some caps =>
      toLex (if caps.supportsWordTimestamps then 1 else 0,
        toLex (if caps.includesDiarization then 1 else 0, -(gpuRate caps).getD 999))

/-- The reason of `_rank_and_select` for the best of several engines. -/
def rankedReason (capable : List EngineRecord) (winner : EngineRecord) : String :=
  let native := match winner.capabilities with
    | none => []
    | some caps =>
        (if caps.supportsWordTimestamps then ["native word timestamps"] else []) ++
          if caps.includesDiarization then ["native diarization"] else []
  ", ".intercalate (native ++ ["ranked first of " ++ toString capable.length])

/-- `_catalog_on_demand_fallback`. -/
def catalogOnDemandFallback (catalogAlts : List CatalogEntry) (engineId : Option String) :
    Option EngineChoice :=
  let candidates := catalogAlts.filter fun entry =>
    entry.onDemand && engineId.all (entry.engineId = ·)
  let rate (entry : CatalogEntry) : WithTop Rat :=
    match gpuRate entry.capabilities with
    | none => ⊤
    | some rate => rate
  (candidates.argmin rate).map fun winner =>
    { engineId := winner.engineId
      capabilities := winner.capabilities
      selectionReason := "on_demand catalog fallback (no live instance, scale-to-zero)"
      onDemand := true }

section Selection

variable (env : SelectionEnv) (stage : String) (requirements : Requirements)

/-- The languages of a model admit the requested one. -/
def admits (languages : Option (List String)) (language : String) : Bool :=
  languages.all fun known => env.lower language ∈ known.map env.lower

/-- A requested language that is not left to detection. -/
def Requirements.explicitLanguage : Option String :=
  (EngineRecord.nonempty requirements.language).filter fun language => env.lower language ≠ "auto"

/-- The order of `_find_best_downloaded_model`. -/
def modelScore (model : ModelRow) : Nat ×ₗ Nat :=
  let langMatch := match requirements.explicitLanguage env, model.languages with
    | some _, none | some _, some [] => 1
    | some language, some known => if env.lower language ∈ known.map env.lower then 1 else 0
    | none, none => 2
    | none, some known => if 10 < known.length then 2 else 1
  toLex (langMatch, model.sizeBytes.getD 0)

def findBestDownloadedModel (engineId : String) : Option ModelRow :=
  let downloaded := env.models.rows.filter fun model =>
    model.engineId = engineId && model.status = .ready && model.stage = stage
  let compatible := match requirements.explicitLanguage env with
    | none => downloaded
    | some language => downloaded.filter fun model => admits env model.languages language
  (bestFirst (modelScore env requirements) compatible).head?

def NoCapableEngine (candidates : List EngineRecord) : SelectionFailure :=
  .noCapableEngine stage requirements candidates (findEngines env.catalog stage requirements)

/-- The choice of a model, once its engine is known. -/
def modelChoice (model : ModelRow) (engine : Option EngineRecord)
    (capabilities : EngineCapabilities) (onDemand : Bool) :
    Except SelectionFailure EngineChoice :=
  if (EngineRecord.nonempty requirements.language).all (admits env model.languages) then
    .ok {
      engineId := model.engineId
      capabilities
      selectionReason :=
        if onDemand then "database model lookup (on_demand catalog fallback, no live instance)"
        else "database model lookup"
      loadedModelId := some (resolveLoadedModelId model stage)
      onDemand }
  else .error (NoCapableEngine env stage requirements engine.toList)

/-- The job names a model of the table. -/
def selectModel (model : ModelRow) : Except SelectionFailure EngineChoice :=
  if model.stage ≠ stage then
    .error (.modelSelection "model_stage_mismatch" stage model.id (some model.engineId)
      (some ("model stage is '" ++ model.stage ++ "'")))
  else if model.status ≠ .ready then
    .error (.modelSelection "model_not_ready" stage model.id (some model.engineId)
      (some ("status is '" ++ statusText model.status ++ "'")))
  else
    let engine := env.registry.getEngine env.now model.engineId
    match engine.filter (·.isHealthy env.now) with
    | some live =>
        modelChoice env stage requirements model engine
          (live.capabilities.getD (unknownCapabilities model.engineId stage)) false
    | none =>
        match (env.catalog.find? model.engineId).filter (·.onDemand) with
        | some entry => modelChoice env stage requirements model engine entry.capabilities true
        | none =>
            .error (.modelSelection "runtime_unavailable" stage model.id (some model.engineId) none)

/-- The job names an engine. -/
def selectNamedEngine (engineId : String) : Except SelectionFailure EngineChoice :=
  match (env.registry.getEngine env.now engineId).filter (·.isAvailable env.now) with
  | none =>
      match catalogOnDemandFallback (findEngines env.catalog stage requirements) (some engineId) with
      | some choice => .ok choice
      | none => .error (NoCapableEngine env stage requirements [])
  | some engine =>
      if engine.capabilities.all (meetsRequirements · requirements) then
        .ok {
          engineId := engine.engineId
          capabilities := engine.capabilities.getD (unknownCapabilities engine.engineId stage)
          selectionReason := "user preference" }
      else .error (NoCapableEngine env stage requirements [engine])

/-- The best of the ranked engines, with the best model of the first that has one. -/
def selectRanked (ranked : List EngineRecord) (first : EngineRecord) (reason : String) :
    Except SelectionFailure EngineChoice :=
  let choice (engine : EngineRecord) (reason : String) (model : Option ModelRow) : EngineChoice :=
    { engineId := engine.engineId
      capabilities := engine.capabilities.getD (unknownCapabilities engine.engineId stage)
      selectionReason := reason
      loadedModelId := model.map (resolveLoadedModelId · stage) }
  if stage ∈ MODEL_BACKED_STAGES then
    match ranked.zipIdx.findSome? fun candidate =>
      (findBestDownloadedModel env stage requirements candidate.1.engineId).map (candidate, ·) with
    | none =>
        .error (.noDownloadedModel first.engineId stage (ranked.map (·.engineId)))
    | some ((engine, idx), model) =>
        .ok (choice engine (if ranked.length ≤ 1 ∨ idx = 0 then reason
          else reason ++ "; fallback to engine_id with ready model") (some model))
  else .ok (choice first reason none)

/-- The live engines that can take the stage, or the catalog when there are none. -/
def selectCapable (candidates : List EngineRecord) :
    List EngineRecord → Except SelectionFailure EngineChoice
  | [] =>
      match catalogOnDemandFallback (findEngines env.catalog stage requirements) none with
      | some choice => .ok choice
      | none => .error (NoCapableEngine env stage requirements candidates)
  | [engine] => selectRanked env stage requirements [engine] engine "only capable engine"
  | engine :: others =>
      let ranked := bestFirst engineScore (engine :: others)
      let winner := ranked.headD engine
      selectRanked env stage requirements ranked winner (rankedReason (engine :: others) winner)

def batchEngines : List EngineRecord :=
  (env.registry.getByStage stage).filter (·.supportsInterface "batch")

/-- A healthy engine that meets the requirements, as far as its capabilities are known. -/
def capable (engine : EngineRecord) : Bool :=
  engine.isHealthy env.now && engine.capabilities.all (meetsRequirements · requirements)

/-- The job names nothing. -/
def selectAutomatically : Except SelectionFailure EngineChoice :=
  selectCapable env stage requirements (batchEngines env stage)
    ((batchEngines env stage).filter (capable env requirements))

def selectEngine (userPreference : Option String) (userPreferenceIsModel : Bool) :
    Except SelectionFailure EngineChoice :=
  match userPreference with
  | none => selectAutomatically env stage requirements
  | some preference =>
      match env.models.find? preference with
      | some model => selectModel env stage requirements model
      | none =>
          if userPreferenceIsModel then
            .error (.modelSelection "model_not_found" stage preference none none)
          else selectNamedEngine env stage requirements preference

end Selection

section Pipeline

variable (env : SelectionEnv) (parameters : Config)

/-- `parameters.get("language") or parameters.get("language_code")`. -/
def requestedLanguage : Json :=
  let language := parameters.getD "language" .null
  if language.truthy then language else parameters.getD "language_code" .null

def extractRequirements : Except SelectionFailure Requirements :=
  let language := requestedLanguage parameters
  let streaming := flag parameters "streaming"
  if language.truthy then
    match language with
    | .str text => .ok ⟨if env.lower text = "auto" then none else some text, streaming⟩
    | _ => .error (.notText "language")
  else .ok ⟨none, streaming⟩

/-- The parameter under which a job names the engine or the model of a stage. -/
def preferenceKey (stage : String) : String :=
  Dict.getD [("prepare", "engine_prepare"), ("transcribe", "model_transcribe"),
    ("align", MODEL_PARAM_ALIGN), ("diarize", "model_diarize"), ("pii_detect", "model_pii_detect")]
    stage "engine_audio_redact"

/-- What the job names for a stage; an empty value names nothing. -/
def userPreference (stage : String) : Except SelectionFailure (Option String) :=
  let value := parameters.getD (preferenceKey stage) .null
  if value.truthy then
    match value with
    | .str text => .ok (some text)
    | _ => .error (.notText (preferenceKey stage))
  else .ok none

/-- Only transcription has all requirements of the job; alignment has its language. -/
def stageRequirements (requirements : Requirements) (stage : String) : Requirements :=
  if stage = "transcribe" then requirements
  else if stage = "align" then ⟨requirements.language, false⟩
  else ⟨none, false⟩

/-- The selection of one stage of a job. -/
def selectForJob (stage : String) : Except SelectionFailure EngineChoice := do
  let requirements ← extractRequirements env parameters
  let preference ← userPreference parameters stage
  selectEngine env stage (stageRequirements requirements stage) preference
    (stage = "align" || stage = "pii_detect")

/-- The pipeline tells two failures from all others, which it passes on. -/
def SelectionFailure.kind : SelectionFailure → SelectionError
  | .noCapableEngine .. => .noCapableEngine
  | .noDownloadedModel .. => .noDownloadedModel
  | .modelSelection .. | .notText _ => .modelSelection

def EngineChoice.result (choice : EngineChoice) : EngineSelectionResult where
  engineId := choice.engineId
  loadedModelId := choice.loadedModelId
  onDemand := choice.onDemand
  supportsWordTimestamps := choice.capabilities.supportsWordTimestamps
  includesDiarization := choice.capabilities.includesDiarization

def stageSelector (stage : String) : Except SelectionError EngineSelectionResult :=
  match selectForJob env parameters stage with
  | .ok choice => .ok choice.result
  | .error failure => .error failure.kind

/-- `select_pipeline_engines` with the engines, the catalog and the models it reads. -/
def selectPipeline : Except SelectionError Selection :=
  selectPipelineEngines (stageSelector env parameters) parameters

end Pipeline

end Dalston.Orchestrator.EngineSelector
