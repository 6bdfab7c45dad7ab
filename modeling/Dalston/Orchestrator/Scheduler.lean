import Dalston.Model.World
import Dalston.Orchestrator.Dag

/-!
# Task scheduler

Queueing a task checks its engine, writes the task's metadata hash and its
request document, and adds the task to the stream of its engine. An engine that
cannot take the task is an engine error, which the callers turn into a failed
job; every other exception leaves the handler.

## Implementation notes

What the code asks of its surroundings during one invocation is the record
`Env`: the clock, the settings, the catalog, the registry's answer for each
task, the configuration models, the DAG builder and the transcript assembler.
-/

namespace Dalston.Orchestrator

open Foundation Model

structure CatalogEntry where
  executionProfile : String

structure Settings where
  engineUnavailableBehavior : String
  engineWaitTimeoutSeconds : Nat
  taskStaleTimeoutS : Nat

/-- The surroundings of one invocation of a handler. -/
structure Env where
  now : Time
  settings : Settings
  catalog : String → Option CatalogEntry
  /-- The registry's answer when the given task is queued. -/
  isEngineAvailable : Uuid → String → Bool
  /-- `_build_error_details` for a stage and a task's configuration. -/
  errorDetails : String → Config → Json
  /-- Validation by the model that `STAGE_CONFIG_MAP` has for a stage. -/
  validConfig : String → Config → Bool
  buildTaskDag : JobModel → Except BuildError Dag
  assembleTranscript : JobModel → List TaskModel → (Uuid → Option Config) → Except String Config
  /-- The two ids drawn for the enrichment tasks. -/
  piiDetectId : Uuid
  audioRedactId : Uuid

/-- Why a task could not be queued. -/
inductive QueueError
  /-- An engine error, with its `to_dict`. -/
  | engine (detail : Config)
  | other

/-- The columns of the job that describe its audio. -/
structure AudioMetadata where
  format : String
  duration : Option Rat
  sampleRate : Option Int
  channels : Option Int
  bitDepth : Option Int

def AudioMetadata.ofJob (job : JobModel) : Option AudioMetadata :=
  job.audioFormat.map fun format =>
    { format := format, duration := job.audioDuration, sampleRate := job.audioSampleRate
      channels := job.audioChannels, bitDepth := job.audioBitDepth }

/-- `AudioMedia(...)`, dumped without its missing fields. -/
def AudioMetadata.media (audio : AudioMetadata) (artifactId : String) : Option Json :=
  match audio.duration, audio.sampleRate, audio.channels with
  | some duration, some sampleRate, some channels =>
      if 0 ≤ duration ∧ 0 < sampleRate ∧ 1 ≤ channels then
        some (.obj ([("artifact_id", .str artifactId), ("format", .str audio.format),
          ("duration", .num duration), ("sample_rate", .num sampleRate),
          ("channels", .num channels)] ++
          (audio.bitDepth.map fun depth => ("bit_depth", Json.num depth)).toList))
      else none
  | _, _, _ => none

/-- `pattern in text`. -/
def containsText (pattern : List Char) : List Char → Bool
  | [] => pattern.isEmpty
  | c :: rest => pattern.isPrefixOf (c :: rest) || containsText pattern rest

/-- The text before the last occurrence of a pattern. -/
def beforeLast (pattern : List Char) : List Char → Option (List Char)
  | [] => none
  | c :: rest =>
      match beforeLast pattern rest with
      | some text => some (c :: text)
      | none => if pattern.isPrefixOf (c :: rest) then some [] else none

/-- `stage.rsplit("_ch", 1)[0]`. -/
def baseStage (stage : String) : String :=
  match beforeLast "_ch".toList stage.toList with
  | some text => String.ofList text
  | none => stage

/-- `re.sub(r"_ch\d+$", "", stage)`. -/
def stripChannel (stage : String) : String :=
  let digits := stage.toList.reverse.takeWhile Char.isDigit
  let before := stage.toList.reverse.dropWhile Char.isDigit
  if digits ≠ [] ∧ "hc_".toList.isPrefixOf before then
    String.ofList (before.drop 3).reverse
  else stage

/-- `_gather_previous_responses`. -/
def gatherPreviousResponses (dependencies : List Uuid) (tasks : List TaskModel)
    (responses : Uuid → Option Config) : Config :=
  dependencies.foldl (fun gathered id =>
    match tasks.find? fun t => t.id = id with
    | none => gathered
    | some task =>
        match (responses id).bind fun output => output.get? "data" with
        | none => gathered
        | some data => (gathered.set task.stage data).set (stripChannel task.stage) data) []

/-- A task without declared bindings takes those of its configuration. -/
def withBindings (task : Task) : Task :=
  match task.inputBindings, task.config.get? "request_bindings" with
  | [], some (.arr bindings) => { task with inputBindings := bindings }
  | _, _ => task

/-- `language.lower()` exists for strings only. -/
def languageReadable (config : Config) : Bool :=
  match config.get? "language" with
  | some (.str _) | none => true
  | some value => !value.truthy

def catalogValidationError (task : Task) (profile : String) : Config :=
  [("error", .str "catalog_validation_error"),
    ("message", .str s!"Runtime '{task.engineId}' declares execution_profile '{profile}' and cannot be queued on the distributed container path. Use the lite pipeline for inproc/venv engine_ids."),
    ("stage", .str task.stage)]

def engineUnavailableError (env : Env) (task : Task) : Config :=
  [("error", .str "engine_unavailable"),
    ("message", .str s!"Engine '{task.engineId}' is not available. No healthy engine registered for stage '{task.stage}'."),
    ("engine_id", .str task.engineId), ("stage", .str task.stage),
    ("details", env.errorDetails task.stage task.config)]

def onDemandWait (task : Task) : Bool := flag task.config "_on_demand_wait"

/-- What queueing a task does about its engine: an error, or whether the task has to wait. -/
def checkEngine (env : Env) (task : Task) : Except QueueError Bool :=
  if !languageReadable task.config then .error .other
  else
    let profile := ((env.catalog task.engineId).map CatalogEntry.executionProfile).getD "container"
    if profile ≠ "container" then .error (.engine (catalogValidationError task profile))
    else if env.isEngineAvailable task.id task.engineId then .ok false
    else if !onDemandWait task && env.settings.engineUnavailableBehavior = "fail_fast" then
      .error (.engine (engineUnavailableError env task))
    else .ok true

def waitTimeout (env : Env) (task : Task) : Nat :=
  if onDemandWait task then env.settings.taskStaleTimeoutS
  else env.settings.engineWaitTimeoutSeconds

def queueMetadata (env : Env) (task : Task) (waiting : Bool) : TaskMetadata where
  stage := task.stage
  engineId := task.engineId
  queueId := task.engineId
  executionProfile :=
    ((env.catalog task.engineId).map CatalogEntry.executionProfile).getD "container"
  enqueuedAt := env.now
  waitingForEngine := waiting
  waitTimeoutS := if waiting then some (waitTimeout env task) else none
  waitDeadlineAt := if waiting then some (env.now + waitTimeout env task) else none
  blockedReason := none
  requestBindings := []
  resolvedArtifactIds := []
  streamMessageId := none

/-- `_matches_selector`. -/
def matchesSelector (reference : ArtifactReference) (selector : ArtifactSelector) : Bool :=
  reference.producerStage = some selector.producerStage && reference.kind = selector.kind &&
    (selector.channel.isNone || reference.channel = selector.channel) &&
    (selector.role.isNone || reference.role = selector.role)

/-- `_resolve_input_bindings`; `none` when a required artifact is missing. -/
def resolveInputBindings (index : Dict ArtifactReference) :
    List RequestBinding → Dict String → Option (Dict String)
  | [], resolved => some resolved
  | binding :: rest, resolved =>
      match index.find? fun kv => matchesSelector kv.2 binding.selector with
      | some (artifactId, _) =>
          resolveInputBindings index rest (resolved.set binding.slot artifactId)
      | none =>
          if binding.selector.required then none else resolveInputBindings index rest resolved

def sourceArtifactId : String := "source:audio"

def sourceReference (requestUri : String) : ArtifactReference where
  artifactId := sourceArtifactId
  kind := "audio"
  storageLocator := requestUri
  channel := none
  role := some "source"
  producerStage := some "gateway"

/-- `{key: value for key, value in task.config.items() if key != "request_bindings"}`. -/
def effectiveConfig (config : Config) : Config := config.filter fun kv => kv.1 ≠ "request_bindings"

/-- The payload of the root stage; `none` when the audio metadata is invalid. -/
def requestPayload : Option AudioMetadata → Option (Option Json)
  | none => some none
  | some audio => (audio.media sourceArtifactId).map fun media => some (.obj [("media", media)])

/-- The payload and the resolved artifacts of a request, with the index they refer to. -/
def resolveRequest (task : Task) (bindings : List RequestBinding)
    (audio : Option AudioMetadata) (index : Dict ArtifactReference) :
    Option (Option Json × Dict String × Dict ArtifactReference) :=
  if task.stage = "prepare" then do
    let requestUri ← task.requestUri.filter (· ≠ "")
    let payload ← requestPayload audio
    return (payload, [("audio", sourceArtifactId)],
      index.set sourceArtifactId (sourceReference requestUri))
  else do
    let resolved ← resolveInputBindings index bindings []
    return (none, resolved, index)

/-- The document `write_task_request` writes; `none` when it raises. -/
def taskRequest (env : Env) (task : Task) (previousResponses : Config)
    (audio : Option AudioMetadata) (index : Dict ArtifactReference) :
    Option TaskRequestData := do
  let bindings ← task.inputBindings.mapM RequestBinding.modelValidate
  let (payload, resolved, index) ← resolveRequest task bindings audio index
  let config := effectiveConfig task.config
  if env.validConfig (baseStage task.stage) config then
    return {
      payload := payload, previousResponses := previousResponses, config := config
      requestBindings := bindings, resolvedArtifactIds := resolved, artifactIndex := index }
  else none

/-- Announce that a task waits for its engine. -/
def announceWait (task : Task) : Bool → Action Unit
  | true => exec (.publish (.engineNeeded task.id))
  | false => return ()

def registerWait (task : Task) : Bool → Action Unit
  | true => exec (.addWaitingTask task.id)
  | false => return ()

/-- `add_task`, or `add_task_once` under the key of a retry. -/
def enqueue (task : Task) : Option Nat → Action Unit
  | none => do
      let before ← Program.perform (.addTask task.engineId task.id)
      exec (.setStreamMessageId task.id before.nextMessageId)
  | some retries => do
      let before ← Program.perform (.addTaskOnce task.engineId task.id retries)
      if before.retryEnqueued task.id retries then return ()
      else exec (.setStreamMessageId task.id before.nextMessageId)

/-- Write the request document and add the task to its stream. -/
def dispatchRequest (task : Task) (retryKey : Option Nat) :
    Option TaskRequestData → Action (Except QueueError Unit)
  | none => return .error .other
  | some request => do
      exec (.putRequest task.id request)
      exec (.setRequestMetadata task.id (request.requestBindings.map RequestBinding.modelDump)
        request.resolvedArtifactIds)
      enqueue task retryKey
      return .ok ()

/-- `queue_task`. -/
def queueTask (env : Env) (task : Task) (previousResponses : Config)
    (audio : Option AudioMetadata) (retryKey : Option Nat) : Action (Except QueueError Unit) :=
  let task := withBindings task
  match checkEngine env task with
  | .error e => return .error e
  | .ok waiting => do
      announceWait task waiting
      exec (.setTaskMetadata task.id (queueMetadata env task waiting))
      registerWait task waiting
      let artifacts := (← getWorld).artifacts
      dispatchRequest task retryKey (taskRequest env task previousResponses audio artifacts)

end Dalston.Orchestrator
