import Dalston.Foundation.Dict
import Dalston.Model.Rows

/-!
# Engine records

An engine instance is registered as a flat hash under a key that expires. A
record is written field by field and decoded again by every reader, each
missing field with a default of its own.

## Implementation notes

A value of the hash keeps the structure of the text it is written as: the
decimal form of a number, the JSON text of a list or of a model, or plain text.
Every field has one writer's form, and its reader undoes that form.
-/

namespace Dalston.Registry

open Foundation Model

inductive VocabularyMethod
  | none | promptConditioning | phraseBoosting | wordBoosting | instruction

/-- Vocabulary boosting capability for an engine. -/
structure VocabularySupport where
  method : VocabularyMethod
  batch : Bool
  realtime : Bool

/-- What an engine can do, as its `engine.yaml` declares it. -/
structure EngineCapabilities where
  engineId : String
  version : String
  stages : List String
  supportsWordTimestamps : Bool := false
  supportsNativeStreaming : Bool := false
  modelVariants : Option (List String) := none
  gpuRequired : Bool := false
  gpuVramMb : Option Int := none
  supportsCpu : Bool := true
  minRamGb : Option Int := none
  rtfGpu : Option Rat := none
  rtfCpu : Option Rat := none
  maxConcurrency : Option Int := none
  includesDiarization : Bool := false
  vocabularySupport : Option VocabularySupport := none
  supportsLanguageForcing : Bool := true

/-- Unified engine registration record. -/
structure EngineRecord where
  instanceId : String
  engineId : String
  stage : String
  status : String
  interfaces : List String
  capacity : Int := 1
  activeBatch : Int := 0
  activeRealtime : Int := 0
  modelsLoaded : Option (List String) := none
  supportsWordTimestamps : Bool := false
  includesDiarization : Bool := false
  endpoint : Option String := none
  streamName : Option String := none
  gpuMemoryUsed : String := "0GB"
  gpuMemoryTotal : String := "0GB"
  lastHeartbeat : Option Time := none
  registeredAt : Option Time := none
  capabilities : Option EngineCapabilities := none
  loadedModel : Option String := none
  executionProfile : String := "container"
  vocabularySupport : Option VocabularySupport := none
  schemaVersion : Option String := none
  hostname : String := ""
  nodeId : String := ""
  deployEnv : String := "local"
  awsAz : Option String := none
  awsInstanceType : Option String := none

/-- The text of a hash field. -/
inductive FieldText
  | text (s : String)
  /-- `str(n)`. -/
  | int (n : Int)
  /-- `json.dumps(items)`. -/
  | list (items : List String)
  /-- `t.isoformat()`. -/
  | instant (t : Time)
  /-- `model_dump_json()` of the capabilities. -/
  | capabilities (c : EngineCapabilities)
  /-- `model_dump_json()` of the vocabulary support. -/
  | vocabulary (v : VocabularySupport)

/-- A Redis hash. -/
abbrev Hash := Dict FieldText

namespace FieldText

def bool (b : Bool) : FieldText := .text (if b then "true" else "false")

/-- The plain text of a field. -/
def asText : FieldText → Option String
  | .text s => some s
  | _ => none

/-- `int(value)`. -/
def asInt : FieldText → Option Int
  | .int n => some n
  | _ => none

def asList : FieldText → Option (List String)
  | .list items => some items
  | _ => none

/-- `_parse_datetime`. -/
def asInstant : FieldText → Option Time
  | .instant t => some t
  | _ => none

def asCapabilities : FieldText → Option EngineCapabilities
  | .capabilities c => some c
  | _ => none

def asVocabulary : FieldText → Option VocabularySupport
  | .vocabulary v => some v
  | _ => none

end FieldText

namespace EngineRecord

/-- Remaining capacity for new work. -/
def availableCapacity (r : EngineRecord) : Int :=
  max 0 (r.capacity - r.activeBatch - r.activeRealtime)

/-- `HEARTBEAT_TIMEOUT_SECONDS`. -/
def heartbeatTimeoutSeconds : Nat := 60

/-- Whether the engine can accept new work. -/
def isAvailable (now : Time) (r : EngineRecord) : Bool :=
  if r.status = "offline" ∨ r.status = "draining" then false
  else
    match r.lastHeartbeat with
    | some heartbeat =>
        if heartbeatTimeoutSeconds ≤ now - heartbeat then false else 0 < r.availableCapacity
    | none => 0 < r.availableCapacity

/-- Whether the engine has a fresh heartbeat, whatever its capacity. -/
def isHealthy (now : Time) (r : EngineRecord) : Bool :=
  if r.status = "offline" then false
  else r.lastHeartbeat.any fun heartbeat => now - heartbeat < heartbeatTimeoutSeconds

/-- An engine with a heartbeat that can accept new work is healthy. -/
theorem isHealthy_of_isAvailable {now : Time} {r : EngineRecord} (h : r.lastHeartbeat.isSome)
    (havailable : r.isAvailable now = true) : r.isHealthy now = true := by
  obtain ⟨heartbeat, hheartbeat⟩ := Option.isSome_iff_exists.mp h
  simp only [isAvailable, hheartbeat] at havailable
  split at havailable
  · cases havailable
  · rename_i hstatus
    split at havailable
    · cases havailable
    · rename_i hfresh
      simp [isHealthy, hheartbeat, not_or.mp hstatus, not_le.mp hfresh]

def supportsInterface (r : EngineRecord) (interface : String) : Bool :=
  interface ∈ r.interfaces

/-- The fields every registration writes. -/
def requiredFields (now : Time) (r : EngineRecord) : Hash :=
  [("instance", .text r.instanceId), ("engine_id", .text r.engineId), ("stage", .text r.stage),
    ("status", .text r.status), ("interfaces", .list r.interfaces), ("capacity", .int r.capacity),
    ("active_batch", .int r.activeBatch), ("active_realtime", .int r.activeRealtime),
    ("gpu_memory_used", .text r.gpuMemoryUsed), ("gpu_memory_total", .text r.gpuMemoryTotal),
    ("last_heartbeat", .instant (r.lastHeartbeat.getD now)),
    ("registered_at", .instant (r.registeredAt.getD now)),
    ("supports_word_timestamps", .bool r.supportsWordTimestamps),
    ("includes_diarization", .bool r.includesDiarization),
    ("execution_profile", .text r.executionProfile), ("hostname", .text r.hostname),
    ("node_id", .text r.nodeId), ("deploy_env", .text r.deployEnv)]

/-- The fields a registration writes when they are not `None`. -/
def optionalFields (r : EngineRecord) : Hash :=
  List.flatten [
    Dict.optional "aws_az" (r.awsAz.map .text),
    Dict.optional "aws_instance_type" (r.awsInstanceType.map .text),
    Dict.optional "models_loaded" (r.modelsLoaded.map .list),
    Dict.optional "endpoint" (r.endpoint.map .text),
    Dict.optional "stream_name" (r.streamName.map .text),
    Dict.optional "capabilities" (r.capabilities.map .capabilities),
    Dict.optional "loaded_model" (r.loadedModel.map .text),
    Dict.optional "vocabulary_support" (r.vocabularySupport.map .vocabulary),
    Dict.optional "schema_version" (r.schemaVersion.map .text)]

/-- `_record_to_mapping`. -/
def toMapping (now : Time) (r : EngineRecord) : Hash := r.requiredFields now ++ r.optionalFields

/-- The value of a field in the form its reader expects. -/
def field {A : Type} (data : Hash) (key : String) (read : FieldText → Option A) : Option A :=
  (data.get? key).bind read

/-- `value or None` of a text. -/
def nonempty : Option String → Option String
  | some "" => none
  | value => value

/-- `_mapping_to_record`: a hash without an engine id is no record. -/
def ofMapping (instanceId : String) (data : Hash) : Option EngineRecord :=
  match nonempty (field data "engine_id" FieldText.asText) with
  | none => none
  | some engineId => some {
      instanceId := (field data "instance" FieldText.asText).getD instanceId
      engineId
      stage := (field data "stage" FieldText.asText).getD "unknown"
      status := (field data "status" FieldText.asText).getD "offline"
      interfaces := (field data "interfaces" FieldText.asList).getD ["batch"]
      capacity := (field data "capacity" FieldText.asInt).getD 1
      activeBatch := (field data "active_batch" FieldText.asInt).getD 0
      activeRealtime := (field data "active_realtime" FieldText.asInt).getD 0
      modelsLoaded := field data "models_loaded" FieldText.asList
      supportsWordTimestamps := field data "supports_word_timestamps" FieldText.asText = some "true"
      includesDiarization := field data "includes_diarization" FieldText.asText = some "true"
      endpoint := field data "endpoint" FieldText.asText
      streamName := field data "stream_name" FieldText.asText
      gpuMemoryUsed := (field data "gpu_memory_used" FieldText.asText).getD "0GB"
      gpuMemoryTotal := (field data "gpu_memory_total" FieldText.asText).getD "0GB"
      lastHeartbeat := field data "last_heartbeat" FieldText.asInstant
      registeredAt := field data "registered_at" FieldText.asInstant
      capabilities := field data "capabilities" FieldText.asCapabilities
      loadedModel := nonempty (field data "loaded_model" FieldText.asText)
      executionProfile := (field data "execution_profile" FieldText.asText).getD "container"
      vocabularySupport := field data "vocabulary_support" FieldText.asVocabulary
      schemaVersion := field data "schema_version" FieldText.asText
      hostname := (field data "hostname" FieldText.asText).getD ""
      nodeId := (field data "node_id" FieldText.asText).getD ""
      deployEnv := (field data "deploy_env" FieldText.asText).getD "local"
      awsAz := field data "aws_az" FieldText.asText
      awsInstanceType := field data "aws_instance_type" FieldText.asText }

end EngineRecord

/-- What `get_available` is asked for. -/
structure Wanted where
  now : Time
  interface : Option String
  engineId : Option String
  model : Option String
  validEngineIds : Option (List String)

namespace Wanted

/-- The engine has the model loaded, or it can load it. -/
def servesModel (wanted : Wanted) (record : EngineRecord) (model : String) : Bool :=
  (record.modelsLoaded.getD []).contains model ||
    (EngineRecord.nonempty wanted.engineId = some record.engineId) ||
    ((record.capabilities.bind (·.modelVariants)).getD []).contains model

def accepts (wanted : Wanted) (record : EngineRecord) : Bool :=
  record.isAvailable wanted.now &&
    ((EngineRecord.nonempty wanted.interface).all record.supportsInterface) &&
    ((EngineRecord.nonempty wanted.engineId).all (record.engineId = ·)) &&
    (wanted.validEngineIds.all (·.contains record.engineId)) &&
    (wanted.model.all (wanted.servesModel record))

/-- Engines that have the wanted model loaded come first, then the least loaded ones. -/
def before (wanted : Wanted) (r r' : EngineRecord) : Bool :=
  match EngineRecord.nonempty wanted.model with
  | none => r'.availableCapacity ≤ r.availableCapacity
  | some model =>
      let loaded := (r.modelsLoaded.getD []).contains model
      let loaded' := (r'.modelsLoaded.getD []).contains model
      if loaded = loaded' then r'.availableCapacity ≤ r.availableCapacity else loaded

/-- `get_available` on the records it has read. -/
def getAvailable (wanted : Wanted) (records : List EngineRecord) : List EngineRecord :=
  (records.filter wanted.accepts).mergeSort wanted.before

theorem mem_getAvailable {wanted : Wanted} {records : List EngineRecord} {record : EngineRecord}
    (h : record ∈ wanted.getAvailable records) : record ∈ records ∧ wanted.accepts record := by
  rw [getAvailable, List.mem_mergeSort] at h
  exact List.mem_filter.mp h

end Wanted

end Dalston.Registry
