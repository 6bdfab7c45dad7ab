import Dalston.Orchestrator.Scheduler

/-!
# Post-processing of completed jobs

A completed job that asks for PII detection gets its enrichment tasks after
the core pipeline: `pii_detect`, and `audio_redact` when the audio is to be
redacted. When all enrichments are done the transcript is patched with their
outputs.
-/

namespace Dalston.Orchestrator

open Foundation Model

def VALID_PII_REDACTION_MODES : List String := ["silence", "beep"]

def DEFAULT_PII_CONFIDENCE_THRESHOLD : Rat := 1 / 2

def DEFAULT_PII_BUFFER_MS : Rat := 50

def POST_PROCESSOR_MAX_RETRIES : Nat := 2

def needsPostProcessing (job : JobModel) : Bool := flag job.parameters "pii_detection"

def piiDetectConfig (parameters : Config) : Config :=
  let config : Config :=
    [("entity_types", parameters.getD "pii_entity_types" .null),
      ("confidence_threshold", parameters.getD "pii_confidence_threshold"
        (.num DEFAULT_PII_CONFIDENCE_THRESHOLD)),
      ("post_processing", .bool true)]
  if flag parameters "model_pii_detect" then
    config.set "loaded_model_id" (parameters.getD "model_pii_detect" .null)
  else config

def redactionMode (parameters : Config) : String :=
  match parameters.getD "pii_redaction_mode" (.str "silence") with
  | .str mode => if mode ∈ VALID_PII_REDACTION_MODES then mode else "silence"
  | _ => "silence"

def audioRedactConfig (parameters : Config) : Config :=
  [("redaction_mode", .str (redactionMode parameters)),
    ("buffer_ms", parameters.getD "pii_buffer_ms" (.num DEFAULT_PII_BUFFER_MS)),
    ("post_processing", .bool true)]

def piiDetectTask (env : Env) (parameters : Config) : Task :=
  newTask env.piiDetectId "pii_detect" (DEFAULT_ENGINES.getD "pii_detect" "") [] []
    (piiDetectConfig parameters) none POST_PROCESSOR_MAX_RETRIES false

def audioRedactTask (env : Env) (parameters : Config) : Task :=
  newTask env.audioRedactId "audio_redact" (DEFAULT_ENGINES.getD "audio_redact" "")
    [env.piiDetectId] [audioInputBinding none] (audioRedactConfig parameters) none
    POST_PROCESSOR_MAX_RETRIES false

/-- The enrichment tasks that follow the first one. -/
def redactionTasks (env : Env) (parameters : Config) : List Task :=
  if flag parameters "redact_pii_audio" then [audioRedactTask env parameters] else []

def buildPostProcessingTasks (env : Env) (job : JobModel) : List Task :=
  piiDetectTask env job.parameters :: redactionTasks env job.parameters

/-- `^(transcribe|align|diarize)(_ch\d+)?$`. -/
def isPiiInputStage (stage : String) : Bool :=
  stripChannel stage ∈ ["transcribe", "align", "diarize"]

def completedPiiInputs (tasks : List TaskModel) : List Uuid :=
  (tasks.filter fun t => isPiiInputStage t.stage ∧ t.status = .completed).map (·.id)

/-- Record what became of queueing the first enrichment task. -/
def recordQueueing (task : Task) : Except QueueError Unit → Action Unit
  | .ok () => return ()
  | .error _ => exec (.setEnrichment task.stage .failed)

/-- Track and queue enrichment tasks that have been saved. -/
def startPostProcessing (env : Env) (job : JobModel) : Action Unit := do
  let first := piiDetectTask env job.parameters
  exec (.setEnrichments ((buildPostProcessingTasks env job).map (·.stage)))
  exec (.markReady first.id none)
  let w ← getWorld
  let responses :=
    gatherPreviousResponses (completedPiiInputs w.tasks.rows) w.tasks.rows w.responses
  recordQueueing first (← queueTask env first responses none none)

/-- `schedule_post_processing`; its exceptions are caught by its caller. -/
def schedulePostProcessing (env : Env) (job : JobModel) : Action Unit := do
  let models := (buildPostProcessingTasks env job).map (Task.toModel "input_bindings")
  let before ← Program.perform (.saveEnrichmentTasks models)
  if before.tasks.Insertable models then startPostProcessing env job else return ()

/-- `check_post_processing_completion`. -/
def checkPostProcessingCompletion (enrichments : Dict EnrichmentStatus) : Bool :=
  enrichments.all fun kv => kv.2 = .completed ∨ kv.2 = .failed

/-- `key in value`; `none` when the value is no container. -/
def containsKey (key : String) : Json → Option Bool
  | .obj fields => some (Dict.contains fields key)
  | .arr items => some (items.any fun item => match item with
      | .str s => s = key
      | _ => false)
  | .str s => some (containsText key.toList s.toList)
  | _ => none

/-- Copy `value[key]` when it is there; `none` when reading it raises. -/
def copyKey (value : Json) (key : String) (config : Config) : Option Config :=
  match containsKey key value, value with
  | some false, _ => some config
  | some true, .obj fields => some (config.set key (Dict.getD fields key .null))
  | _, _ => none

/-- `value.get` exists for objects only. -/
def objFields : Json → Option Config
  | .obj fields => some fields
  | _ => none

/-- `len(value)`. -/
def jsonLength : Json → Option Nat
  | .obj fields => some fields.length
  | .arr items => some items.length
  | .str s => some s.length
  | _ => none

/-- The `data` of a stored response. -/
def responseData (responses : Uuid → Option Config) (id : Uuid) : Option Json :=
  (responses id).bind fun output => output.get? "data"

/-- The completed enrichment task of a stage. -/
def completedEnrichment (tasks : List TaskModel) (stage : String) : Option TaskModel :=
  tasks.find? fun t => t.stage = stage ∧ isPostProcessingTask t ∧ t.status = .completed

/-- The redaction output to merge, an empty object when there is none. -/
def redactionData (tasks : List TaskModel) (responses : Uuid → Option Config) : Json :=
  match (completedEnrichment tasks "audio_redact").bind fun t => responseData responses t.id with
  | some data => data
  | none => .obj []

def redactionMetadata (redaction : Json) (metadata : Config) : Option Config :=
  if redaction.truthy then do
    let metadata := metadata.set "audio_redacted" (.bool true)
    let metadata ← copyKey redaction "redaction_map" metadata
    let metadata ← copyKey redaction "redacted_audio_artifact_id" metadata
    copyKey redaction "entities_redacted" metadata
  else some metadata

/-- What a patch writes: the transcript and the job's PII columns. -/
structure PiiPatch where
  transcript : Config
  entitiesDetected : Nat
  redactedAudio : Option Json

/-- The patch of a transcript; `none` when building it raises. -/
def piiPatch (detectionEngine : String) (pii : Json) (redaction : Json)
    (transcript : Config) : Option PiiPatch := do
  let transcript ← copyKey pii "redacted_text" transcript
  let transcript ← copyKey pii "pii_entities" transcript
  let fields ← objFields pii
  let count ← jsonLength (Dict.getD fields "pii_entities" (.arr []))
  let metadata ← redactionMetadata redaction
    [("detection_engine", .str detectionEngine), ("entities_detected", .num count)]
  return {
    transcript := transcript.set "pii_metadata" (.obj metadata)
    entitiesDetected := count
    redactedAudio := metadata.get? "redacted_audio_artifact_id" }

/-- The patch `update_transcript_with_pii` makes in a world, if it makes one. -/
def transcriptPatch (w : World) : Option PiiPatch := do
  let task ← completedEnrichment w.tasks.rows "pii_detect"
  let pii ← responseData w.responses task.id
  let transcript ← w.transcript
  piiPatch task.engineId pii (redactionData w.tasks.rows w.responses) transcript

def applyPatch : Option PiiPatch → Action Unit
  | none => return ()
  | some patch => do
      exec (.putTranscript patch.transcript)
      exec (.setPiiResult patch.entitiesDetected patch.redactedAudio)

/-- `update_transcript_with_pii`; its exceptions are caught by its caller. -/
def updateTranscriptWithPii : Action Unit := do
  applyPatch (transcriptPatch (← getWorld))

end Dalston.Orchestrator
