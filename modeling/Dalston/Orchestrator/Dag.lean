import Dalston.Model.Rows

/-!
# Task DAG builder

The builder turns job parameters and the engines selected for its stages into
the tasks of the core pipeline. A mono job gets `prepare`, `transcribe` and,
when needed, `align` and `diarize`; a per-channel job gets one `transcribe_ch`
task, and one `align_ch` task when needed, for every channel.

## Implementation notes

The engine selector and the source of fresh ids are arguments. The `n`-th call
of `uuid4` is `uuid4 n`. A Python error that the caller of the builder does not
catch is `BuildError.raised`.
-/

namespace Dalston.Orchestrator

open Foundation Model

inductive BuildError
  /-- A selection error that ends the job with this message. -/
  | rejected (message : String)
  /-- Any other exception. -/
  | raised

def DEFAULT_TASK_MAX_RETRIES : Nat := 2

/-- The engine of each stage that has none selected. -/
def DEFAULT_ENGINES : Dict String :=
  [("prepare", "audio-prepare"), ("transcribe", "faster-whisper"),
    ("align", "phoneme-align"), ("diarize", "pyannote-4.0"),
    ("pii_detect", "pii-presidio"), ("audio_redact", "audio-redactor")]

def VALID_TIMESTAMPS_GRANULARITIES : List String := ["word", "segment", "none"]

def VALID_SPEAKER_DETECTION_MODES : List String := ["none", "diarize", "per_channel"]

def DEFAULT_TRANSCRIBE_CONFIG : Config :=
  [("language", .null), ("beam_size", .num 5), ("vad_filter", .bool true)]

/-- What the selector decided for one stage. -/
structure StageSelection where
  engineId : String
  loadedModelId : Option String
  onDemand : Bool

structure Selection where
  stages : Dict StageSelection
  effectiveParameters : Config

/-- The binding of the audio slot of a task. -/
def audioInputBinding (channel : Option Nat) : RequestBinding where
  slot := "audio"
  selector := {
    producerStage := "prepare", kind := "audio", channel, role := some "prepared"
    required := true, producerStage_ne := by decide, kind_ne := by decide }
  slot_ne := by decide

/-- A value used as a member of a set of strings; containers are not hashable. -/
def oneOf (valid : List String) (default : String) : Json → Except BuildError String
  | .str s => .ok (if s ∈ valid then s else default)
  | .arr _ | .obj _ => .error .raised
  | _ => .ok default

/-- `value > 0`. -/
def positive : Json → Except BuildError Bool
  | .num q => .ok (0 < q)
  | .bool b => .ok b
  | _ => .error .raised

/-- `parameters.get(key) is not None and parameters[key] > 0`. -/
def positiveParameter (parameters : Config) (key : String) : Except BuildError Bool :=
  match parameters.getD key .null with
  | .null => .ok false
  | value => positive value

def wordTimestamps (parameters : Config) : Except BuildError Bool :=
  match parameters.get? "word_timestamps", parameters.get? "timestamps_granularity" with
  | some value, _ => .ok value.truthy
  | none, some granularity => do
      return (← oneOf VALID_TIMESTAMPS_GRANULARITIES "word" granularity) = "word"
  | none, none => .ok true

def speakerDetection (parameters : Config) : Except BuildError String :=
  oneOf VALID_SPEAKER_DETECTION_MODES "none" (parameters.getD "speaker_detection" (.str "none"))

/-- Copy a parameter under another key when the condition holds. -/
def copyParameter (condition : Bool) (parameters : Config) (source target : String)
    (config : Config) : Config :=
  if condition then config.set target (parameters.getD source .null) else config

def diarizeConfig (parameters : Config) : Except BuildError Config := do
  let config ←
    if ← positiveParameter parameters "num_speakers" then
      pure (copyParameter true parameters "num_speakers" "max_speakers"
        (copyParameter true parameters "num_speakers" "min_speakers" []))
    else do
      let config := copyParameter (← positiveParameter parameters "min_speakers")
        parameters "min_speakers" "min_speakers" []
      pure (copyParameter (← positiveParameter parameters "max_speakers")
        parameters "max_speakers" "max_speakers" config)
  return if flag parameters "exclusive" then config.set "exclusive" (.bool true) else config

def baseTranscribeConfig (parameters : Config) : Except BuildError Config :=
  match parameters.get? "transcribe_config" with
  | some (.obj overrides) =>
      .ok (copyParameter (flag parameters "language") parameters "language" "language"
        (DEFAULT_TRANSCRIBE_CONFIG.merge overrides))
  | some _ => .error .raised
  | none =>
      .ok (DEFAULT_TRANSCRIBE_CONFIG.map fun kv => (kv.1, parameters.getD kv.1 kv.2))

def hasValue (parameters : Config) (key : String) : Bool :=
  match parameters.get? key with
  | none | some .null => false
  | some _ => true

def transcribeConfig (parameters : Config) (loadedModelId : Option String) :
    Except BuildError Config := do
  let config ← baseTranscribeConfig parameters
  let config := copyParameter (flag parameters "task") parameters "task" "task" config
  let config := copyParameter (flag parameters "prompt") parameters "prompt" "prompt" config
  let config :=
    copyParameter (flag parameters "vocabulary") parameters "vocabulary" "vocabulary" config
  let config := copyParameter (parameters.contains "temperature") parameters
    "temperature" "temperature" config
  let config := copyParameter (hasValue parameters "chunking_strategy") parameters
    "chunking_strategy" "chunking_strategy" config
  let config :=
    if flag parameters "include_transcription_logprobs" then
      config.set "include_transcription_logprobs" (.bool true)
    else config
  return match loadedModelId with
    | some modelId => config.set "loaded_model_id" (.str modelId)
    | none => config

/-- A task as the builders create it. -/
def newTask (id : Uuid) (stage engineId : String) (dependencies : List Uuid)
    (bindings : List RequestBinding) (config : Config) (requestUri : Option String)
    (maxRetries : Nat) (required : Bool) : Task where
  id := id
  stage := stage
  engineId := engineId
  status := .pending
  dependencies := dependencies
  inputBindings := bindings.map RequestBinding.modelDump
  config := config
  requestUri := requestUri
  responseUri := none
  retries := 0
  maxRetries := maxRetries
  required := required

/-- A task of the core pipeline. -/
def pipelineTask (engines : Dict String) (id : Uuid) (stage base : String)
    (dependencies : List Uuid) (bindings : List RequestBinding) (config : Config)
    (requestUri : Option String) : Task :=
  newTask id stage (engines.getD base (DEFAULT_ENGINES.getD base "")) dependencies bindings
    config requestUri DEFAULT_TASK_MAX_RETRIES true

def withModel (models : Dict String) (stage : String) (config : Config) : Config :=
  match models.get? stage with
  | some modelId => config.set "loaded_model_id" (.str modelId)
  | none => config

/-- The two tasks of one channel. -/
def channelTasks (uuid4 : Nat → Uuid) (prepareId : Uuid) (engines models : Dict String)
    (config : Config) (align : Bool) (channel : Nat) : List Task :=
  let transcribe := pipelineTask engines (uuid4 (2 * channel + 1))
    s!"transcribe_ch{channel}" "transcribe" [prepareId] [audioInputBinding (some channel)]
    (config.set "channel" (.num channel)) none
  if align then
    [transcribe, pipelineTask engines (uuid4 (2 * channel + 2)) s!"align_ch{channel}" "align"
      [transcribe.id] [audioInputBinding (some channel)]
      (withModel models "align"
        [("word_timestamps", .bool true), ("channel", .num channel)]) none]
  else [transcribe]

/-- `range(num_channels)`. -/
def numChannels (parameters : Config) : Except BuildError Nat :=
  match parameters.getD "num_channels" (.num 2) with
  | .num q => if q.den = 1 then .ok q.num.toNat else .error .raised
  | .bool b => .ok b.toNat
  | _ => .error .raised

def buildPerChannelDagWithEngines (uuid4 : Nat → Uuid) (prepare : Task)
    (engines models : Dict String) (config : Config) (align : Bool) (channels : Nat) :
    List Task :=
  prepare ::
    (List.range channels).flatMap (channelTasks uuid4 prepare.id engines models config align)

def prepareConfig (speechRegions : Bool) (speakerDetection : String) : Config :=
  (if speechRegions then [("detect_speech_regions", .bool true)] else []) ++
    if speakerDetection = "per_channel" then [("split_channels", .bool true)] else []

def buildMonoDag (uuid4 : Nat → Uuid) (prepare : Task) (engines models : Dict String)
    (config diarize : Config) (align diarizes : Bool) : List Task :=
  let transcribe := pipelineTask engines (uuid4 1) "transcribe" "transcribe" [prepare.id]
    [audioInputBinding none] config none
  [prepare, transcribe] ++
    (if align then
      [pipelineTask engines (uuid4 2) "align" "align" [transcribe.id] [audioInputBinding none]
        (withModel models "align" [("word_timestamps", .bool true)]) none]
    else []) ++
    if diarizes then
      [pipelineTask engines (uuid4 3) "diarize" "diarize" [prepare.id] [audioInputBinding none]
        (withModel models "diarize" diarize) none]
    else []

def buildDagWithEngines (uuid4 : Nat → Uuid) (audioUri : String) (speechRegions : Bool)
    (parameters : Config) (engines : Dict String) (skipAlignment skipDiarization : Bool)
    (models : Dict String) : Except BuildError (List Task) := do
  let words ← wordTimestamps parameters
  let detection ← speakerDetection parameters
  let diarize ← diarizeConfig parameters
  let config ← transcribeConfig parameters (models.get? "transcribe")
  let prepare := pipelineTask engines (uuid4 0) "prepare" "prepare" [] []
    (prepareConfig speechRegions detection) (some audioUri)
  if detection = "per_channel" then
    return buildPerChannelDagWithEngines uuid4 prepare engines models config
      (words && !skipAlignment) (← numChannels parameters)
  else
    return buildMonoDag uuid4 prepare engines models config diarize
      (words && !skipAlignment) (detection = "diarize" && !skipDiarization)

/-- Tasks whose engine has no live instance wait for one. -/
def markOnDemand (engineIds : List String) (task : Task) : Task :=
  if task.engineId ∈ engineIds then
    { task with config := task.config.set "_on_demand_wait" (.bool true) }
  else task

def buildTasks (uuid4 : Nat → Uuid) (audioUri : String) (speechRegions : Bool)
    (selection : Selection) : Except BuildError (List Task) := do
  let engines := selection.stages.map fun kv => (kv.1, kv.2.engineId)
  let models := selection.stages.filterMap fun kv =>
    kv.2.loadedModelId.map fun modelId => (kv.1, modelId)
  let tasks ← buildDagWithEngines uuid4 audioUri speechRegions selection.effectiveParameters
    engines (!selection.stages.contains "align") (!selection.stages.contains "diarize") models
  let onDemand := selection.stages.filterMap fun kv =>
    if kv.2.onDemand then some kv.2.engineId else none
  return tasks.map (markOnDemand onDemand)

/-- The tasks of a new job, as the orchestrator may save them. -/
structure Dag where
  tasks : List Task
  uniqueId : (tasks.map (·.id)).Nodup
  uniqueStage : (tasks.map (·.stage)).Nodup
  pending : ∀ t ∈ tasks, t.status = .pending ∧ t.retries = 0
  /-- The root of the pipeline. -/
  prepare : ∃ t ∈ tasks, t.stage = "prepare" ∧ t.dependencies = []
  closed : ∀ t ∈ tasks, ∀ d ∈ t.dependencies, ∃ u ∈ tasks, u.id = d
  /-- No task of the pipeline is an enrichment. -/
  pipeline : ∀ t ∈ tasks,
    flag t.config "post_processing" = false ∧ t.stage ≠ "pii_detect" ∧ t.stage ≠ "audio_redact"

/-- The bindings of a task are dumped bindings, and a task without any does not find
bindings in its configuration. -/
structure Declares (task : Task) : Prop where
  dumped : ∃ bindings : List RequestBinding,
    task.inputBindings = bindings.map RequestBinding.modelDump
  plain : task.inputBindings = [] → task.config.get? "request_bindings" = none

theorem Declares.markOnDemand {task : Task} (h : Declares task) (engineIds : List String) :
    Declares (markOnDemand engineIds task) := by
  unfold Orchestrator.markOnDemand
  split
  · exact ⟨h.dumped, fun hnil => (Dict.get?_set_ne _ _ (by decide)).trans (h.plain hnil)⟩
  · exact h

section Built

variable {uuid4 : Nat → Uuid} {engines models : Dict String}

theorem declares_pipelineTask (id : Uuid) (stage base : String) (dependencies : List Uuid)
    (binding : RequestBinding) (config : Config) (requestUri : Option String) :
    Declares (pipelineTask engines id stage base dependencies [binding] config requestUri) := by
  constructor
  · exact ⟨[binding], rfl⟩
  · intro h
    cases h

theorem declares_prepare (id : Uuid) (speechRegions : Bool) (detection : String)
    (requestUri : Option String) :
    Declares (pipelineTask engines id "prepare" "prepare" [] []
      (prepareConfig speechRegions detection) requestUri) := by
  constructor
  · exact ⟨[], rfl⟩
  · intro _
    show (prepareConfig speechRegions detection).get? "request_bindings" = none
    unfold prepareConfig
    split <;> split <;> simp [Dict.get?_cons]

theorem declares_channelTasks (prepareId : Uuid) (config : Config) (align : Bool) (channel : Nat) :
    ∀ t ∈ channelTasks uuid4 prepareId engines models config align channel, Declares t := by
  intro t ht
  unfold channelTasks at ht
  split at ht
  · simp only [List.mem_cons, List.not_mem_nil, or_false] at ht
    rcases ht with rfl | rfl <;> exact declares_pipelineTask ..
  · rw [List.mem_singleton.mp ht]
    exact declares_pipelineTask ..

theorem declares_buildMonoDag {prepare : Task} (hprepare : Declares prepare)
    (config diarize : Config) (align diarizes : Bool) :
    ∀ t ∈ buildMonoDag uuid4 prepare engines models config diarize align diarizes,
      Declares t := by
  intro t ht
  simp only [buildMonoDag, List.mem_append, List.mem_cons, List.not_mem_nil, or_false] at ht
  rcases ht with ((rfl | rfl) | ht) | ht
  · exact hprepare
  · exact declares_pipelineTask ..
  · split at ht
    · rw [List.mem_singleton.mp ht]
      exact declares_pipelineTask ..
    · cases ht
  · split at ht
    · rw [List.mem_singleton.mp ht]
      exact declares_pipelineTask ..
    · cases ht

theorem declares_buildPerChannelDag {prepare : Task} (hprepare : Declares prepare)
    (config : Config) (align : Bool) (channels : Nat) :
    ∀ t ∈ buildPerChannelDagWithEngines uuid4 prepare engines models config align channels,
      Declares t := by
  intro t ht
  rcases List.mem_cons.mp ht with rfl | ht
  · exact hprepare
  · obtain ⟨channel, _, ht⟩ := List.mem_flatMap.mp ht
    exact declares_channelTasks _ _ _ _ t ht

/-- A computation that succeeds has succeeded at its first step. -/
theorem bind_eq_ok {E A B : Type} {x : Except E A} {f : A → Except E B} {b : B}
    (h : x >>= f = .ok b) : ∃ a, x = .ok a ∧ f a = .ok b := by
  rcases x with error | a
  · cases h
  · exact ⟨a, rfl, h⟩

theorem declares_buildDagWithEngines {audioUri : String} {speechRegions : Bool}
    {parameters : Config} {skipAlignment skipDiarization : Bool} {tasks : List Task}
    (h : buildDagWithEngines uuid4 audioUri speechRegions parameters engines skipAlignment
      skipDiarization models = .ok tasks) : ∀ t ∈ tasks, Declares t := by
  unfold buildDagWithEngines at h
  obtain ⟨words, _, h⟩ := bind_eq_ok h
  obtain ⟨detection, _, h⟩ := bind_eq_ok h
  obtain ⟨diarize, _, h⟩ := bind_eq_ok h
  obtain ⟨config, _, h⟩ := bind_eq_ok h
  dsimp only at h
  split at h
  · obtain ⟨channels, _, h⟩ := bind_eq_ok h
    cases h
    exact declares_buildPerChannelDag (declares_prepare ..) _ _ _
  · cases h
    exact declares_buildMonoDag (declares_prepare ..) _ _ _ _

/-- Every task of the builder declares dumped bindings. -/
theorem declares_buildTasks {audioUri : String} {speechRegions : Bool} {selection : Selection}
    {tasks : List Task} (h : buildTasks uuid4 audioUri speechRegions selection = .ok tasks) :
    ∀ t ∈ tasks, Declares t := by
  obtain ⟨built, hbuilt, h⟩ := bind_eq_ok h
  cases h
  intro t ht
  obtain ⟨u, hu, rfl⟩ := List.mem_map.mp ht
  exact (declares_buildDagWithEngines hbuilt u hu).markOnDemand _

end Built

end Dalston.Orchestrator
