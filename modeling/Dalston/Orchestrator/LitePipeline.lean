import Dalston.Foundation.Actions
import Dalston.Model.Json
import Dalston.Model.TextWrap

/-!
# The lite pipeline

A lite pipeline runs jobs in the process of the gateway. A call publishes an envelope
for the first stage and then polls the queues of all stages; what it takes it
handles, and it publishes the envelope of the next stage. All calls on a pipeline
share the queues and the outputs of the stages, which are kept by job.

## Implementation notes

The queues of the stages are one list, in order of arrival; the queue of a stage is
its entries with that stage. A message id and a task id are the next unused number.
The engines are parameters: what one answers may depend on all of its request, the
task id included. A call can raise at any of its awaits, for what the awaited
operation or the deadline raises. The numbers of a job's parameters do not tell
an integer from a float of its value.
-/

namespace Dalston.Orchestrator.Lite

open Foundation Model

abbrev Bytes := List UInt8

inductive LiteProfile
  | core | speaker | compliance

def LiteProfile.value : LiteProfile → String
  | core => "core"
  | speaker => "speaker"
  | compliance => "compliance"

inductive Stage
  | prepare | transcribe | diarize | piiDetect | merge
  deriving DecidableEq

def Stage.name : Stage → String
  | prepare => "prepare"
  | transcribe => "transcribe"
  | diarize => "diarize"
  | piiDetect => "pii_detect"
  | merge => "merge"

/-- `_STAGES`. -/
def stages : LiteProfile → List Stage
  | .core => [.prepare, .transcribe, .merge]
  | .speaker => [.prepare, .transcribe, .diarize, .merge]
  | .compliance => [.prepare, .transcribe, .piiDetect, .merge]

/-- The stage that an envelope of a stage is followed by. -/
def nextStage (profile : LiteProfile) : Stage → Stage
  | .prepare => .transcribe
  | .transcribe =>
      match profile with
      | .core => .merge
      | .speaker => .diarize
      | .compliance => .piiDetect
  | .diarize | .piiDetect | .merge => .merge

section Validation

/-- `LiteUnsupportedFeatureError`. -/
structure LiteUnsupportedFeature where
  feature : String
  profile : LiteProfile
  remediation : String

/-- `supported_options` of the capability matrix, for the options that are checked. -/
def supports : LiteProfile → String → Bool
  | .core, _ => false
  | .speaker, option => option = "speaker_detection"
  | .compliance, option =>
      ["pii_detection", "pii_entity_types", "redact_pii_audio", "pii_redaction_mode"].contains
        option

def remediationUseSpeakerProfile : String :=
  "Use --profile speaker to enable speaker detection in lite mode, " ++
    "or switch to distributed mode for full diarisation support."

def remediationPerChannelNotSupported : String :=
  "per_channel speaker detection is not supported in lite mode. " ++
    "Use speaker_detection=diarize with the speaker profile, or switch to distributed mode."

def remediationPiiDetection : String :=
  "Use --profile compliance to enable PII detection in lite mode, " ++
    "or switch to distributed mode for full PII support."

def remediationPiiAudioRedaction : String :=
  "Use --profile compliance to enable PII audio redaction in lite mode."

def remediationPiiEntityFiltering : String :=
  "Use --profile compliance to enable PII entity filtering in lite mode."

def remediationPiiRedactionMode : String :=
  "Use --profile compliance to enable PII redaction mode in lite mode."

/-- An option that is asked for and not supported. -/
def unsupportedOption (profile : LiteProfile) (parameters : Config) (option remediation : String) :
    Option LiteUnsupportedFeature :=
  if flag parameters option ∧ ¬ supports profile option then
    some ⟨option, profile, remediation⟩
  else none

/-- The check of `speaker_detection`; a false value counts as `none`. -/
def unsupportedSpeakers (profile : LiteProfile) (parameters : Config) :
    Option LiteUnsupportedFeature :=
  let value := (parameters.get? "speaker_detection").getD (.str "none")
  if !value.truthy || value.equalsText "none" then none
  else if !supports profile "speaker_detection" then
    some ⟨"speaker_detection", profile, remediationUseSpeakerProfile⟩
  else if value.equalsText "per_channel" then
    some ⟨"speaker_detection", profile, remediationPerChannelNotSupported⟩
  else none

/-- `validate_request`: the first option that the profile does not support. -/
def validateRequest (profile : LiteProfile) (parameters : Config) :
    Option LiteUnsupportedFeature :=
  (unsupportedSpeakers profile parameters)
    <|> unsupportedOption profile parameters "pii_detection" remediationPiiDetection
    <|> unsupportedOption profile parameters "redact_pii_audio" remediationPiiAudioRedaction
    <|> unsupportedOption profile parameters "pii_entity_types" remediationPiiEntityFiltering
    <|> unsupportedOption profile parameters "pii_redaction_mode" remediationPiiRedactionMode

end Validation

section Merge

def strip (text : String) : String := String.ofList (TextWrap.strip text.toList)

def asObject : Json → Option Config
  | .obj fields => some fields
  | _ => none

def asText : Json → Option String
  | .str text => some text
  | _ => none

def asList : Json → Option (List Json)
  | .arr items => some items
  | _ => none

/-- The dictionaries in the list under a key. -/
def objectsAt (payload : Config) (key : String) : List Config :=
  (((payload.get? key).bind asList).getD []).filterMap asObject

/-- `_normalize_segments`. -/
def normalizeSegments (payload : Config) : List Config := objectsAt payload "segments"

/-- `_normalize_turns`. -/
def normalizeTurns (payload : Config) : List Config := objectsAt payload "turns"

/-- `_ordered_unique_strings`. -/
def orderedUniqueStrings (values : List Json) : List String :=
  (values.filterMap asText).foldl
    (fun ordered text => if ordered.contains text then ordered else ordered ++ [text]) []

def textAt (fields : Config) (key : String) : Option String := (fields.get? key).bind asText

def numberAt (fields : Config) (key : String) : Option Rat := (fields.get? key).bind Json.number

/-- The start and the end of a segment or a turn, in order. -/
def extent (fields : Config) : Option (Rat × Rat) :=
  match numberAt fields "start", numberAt fields "end" with
  | some start, some stop => if stop ≤ start then none else some (start, stop)
  | _, _ => none

/-- The speaker with the best overlap so far, and that overlap. -/
def betterSpeaker (start stop : Rat) (best : Option String × Rat) (turn : Config) :
    Option String × Rat :=
  match textAt turn "speaker", extent turn with
  | some speaker, some (turnStart, turnEnd) =>
      let overlap := min stop turnEnd - max start turnStart
      if best.2 < overlap then (some speaker, overlap) else best
  | _, _ => best

/-- `_find_best_speaker`. -/
def findBestSpeaker (segment : Config) (turns : List Config) : Option String :=
  match extent segment with
  | none => none
  | some (start, stop) => (turns.foldl (betterSpeaker start stop) (none, 0)).1

/-- `_apply_speaker_labels`. -/
def applySpeakerLabels (segments turns : List Config) : List Config :=
  let speakerTurns := turns.filter fun turn => (textAt turn "speaker").isSome
  segments.mapIdx fun index segment =>
    let fallback := (speakerTurns[index]?).bind (textAt · "speaker")
    match (findBestSpeaker segment speakerTurns).or fallback with
    | none => segment
    | some speaker => segment.set "speaker" (.str speaker)

/-- `_derive_turns`. -/
def deriveTurns (diarizePayload : Config) : List Config :=
  let turns := normalizeTurns diarizePayload
  if turns ≠ [] then turns
  else
    ((normalizeSegments diarizePayload).filter fun segment => (textAt segment "speaker").isSome).map
      fun segment =>
        ["speaker", "start", "end"].map fun key => (key, (segment.get? key).getD .null)

/-- `_resolve_speakers`. -/
def resolveSpeakers (diarizePayload : Config) (segments : List Config) : List String :=
  match (diarizePayload.get? "speakers").bind asList with
  | some speakers => orderedUniqueStrings speakers
  | none =>
      let speakers :=
        orderedUniqueStrings ((deriveTurns diarizePayload).filterMap (·.get? "speaker"))
      if speakers ≠ [] then speakers
      else orderedUniqueStrings (segments.filterMap (·.get? "speaker"))

/-- `_resolve_text`. -/
def resolveText (payload : Config) (segments : List Config) : String :=
  let derived := strip (" ".intercalate ((segments.filterMap (textAt · "text")).map strip))
  match textAt payload "text" with
  | none => derived
  | some text => if strip text ≠ "" then text else derived

def segmentsJson (segments : List Config) : Json := .arr (segments.map .obj)

/-- What the transcripts of all profiles have. -/
def baseTranscript (profile : LiteProfile) (jobId : String) (payload : Config) : Config :=
  let segments := normalizeSegments payload
  [("job_id", .str jobId), ("status", .str "completed"),
    ("text", .str (resolveText payload segments)), ("profile", .str profile.value),
    ("segments", segmentsJson segments)]

def withSpeakers (transcript : Config) (segments : List Config) (diarizePayload : Config) :
    Config :=
  let turns := deriveTurns diarizePayload
  let segments :=
    if turns ≠ [] then applySpeakerLabels segments turns
    else if normalizeSegments diarizePayload ≠ [] then normalizeSegments diarizePayload
    else segments
  let speakers := resolveSpeakers diarizePayload segments
  let transcript := transcript.set "segments" (segmentsJson segments)
  if speakers ≠ [] then transcript.set "speakers" (.arr (speakers.map .str)) else transcript

def withEntities (transcript : Config) : Option Config → Config
  | none => transcript.set "pii_entities" (.arr [])
  | some payload =>
      let entities := ((payload.get? "entities").bind asList).getD []
      let transcript :=
        match textAt payload "anonymized_text" with
        | none => transcript
        | some text => if strip text ≠ "" then transcript.set "text" (.str text) else transcript
      transcript.set "pii_entities" (.arr entities)

/-- The transcript that `_handle_merge` assembles from the outputs of a job's stages. -/
def mergeOutputs (profile : LiteProfile) (jobId : String) (outputs : Dict Config) :
    Except String Config :=
  match outputs.get? "transcribe" with
  | none => .error "Missing transcribe output for lite merge"
  | some payload =>
      let transcript := baseTranscript profile jobId payload
      match profile with
      | .core => .ok transcript
      | .speaker =>
          match outputs.get? "diarize" with
          | none => .ok transcript
          | some diarizePayload =>
              .ok (withSpeakers transcript (normalizeSegments payload) diarizePayload)
      | .compliance => .ok (withEntities transcript (outputs.get? "pii_detect"))

end Merge

section Execution

/-- What an engine is asked: a task request with the contents of its audio file. -/
structure EngineRequest where
  taskId : Nat
  jobId : String
  stage : Stage
  config : Config
  previousResponses : Dict Config
  payload : Option Bytes
  audio : Option Bytes

/-- `_LiteStageBinding`. -/
structure StageBinding where
  engineId : String
  executionProfile : String
  hasFactory : Bool

/-- The settings of a pipeline, its artifact store and its engines. -/
structure LitePipeline where
  profile : LiteProfile
  persistArtifacts : Bool
  ephemeralMode : Bool
  /-- The artifact store keeps its artifacts in files. -/
  fileStore : Bool
  diarizeModelId : String
  bindings : Stage → Option StageBinding
  /-- The engine that a binding's factory makes. -/
  process : StageBinding → EngineRequest → Except String Config
  /-- The executor of an execution profile. -/
  executors : String → Option (StageBinding → EngineRequest → Except String Config)

/-- `isinstance(num_speakers, int) and num_speakers > 0`. -/
def positiveInt : Json → Bool
  | .num q => q.den = 1 && 0 < q
  | .bool b => b
  | _ => false

/-- The configuration of a stage: the job's parameters, with the defaults of diarization. -/
def stageConfig (pipeline : LitePipeline) (stage : Stage) (parameters : Config) : Config :=
  if stage = .diarize then
    let config :=
      if parameters.contains "loaded_model_id" then parameters
      else parameters.set "loaded_model_id" (.str pipeline.diarizeModelId)
    match config.get? "num_speakers" with
    | none => config
    | some count =>
        if positiveInt count ∧ ¬ config.contains "max_speakers" then
          config.set "max_speakers" count
        else config
  else parameters

/-- The stages whose engines get the audio file. -/
def Stage.hearsAudio (stage : Stage) : Bool := stage = .transcribe || stage = .diarize

/-- `_execute_stage`, on a request whose payload is the audio the caller holds. -/
def executeStage (pipeline : LitePipeline) (request : EngineRequest) : Except String Config :=
  match pipeline.bindings request.stage with
  | none =>
      .error ("No lite engine_id binding configured for stage '" ++ request.stage.name ++ "'")
  | some binding =>
      if pipeline.ephemeralMode ∧ binding.executionProfile = "inproc" ∧ binding.hasFactory then
        pipeline.process binding request
      else
        match pipeline.executors binding.executionProfile with
        | none =>
            .error ("No executor configured for profile '" ++ binding.executionProfile ++
              "' (engine_id '" ++ binding.engineId ++ "', stage '" ++ request.stage.name ++ "')")
        | some executor => executor binding { request with payload := none }

end Execution

section State

structure QueueEnvelope where
  messageId : Nat
  stage : Stage
  taskId : Nat
  jobId : String

/-- A waiting envelope. The call for whose job it was published is not part of the envelope. -/
structure Posted extends QueueEnvelope where
  owner : Nat

/-- The arguments of a call; the job id is given or generated. -/
structure LiteCall where
  jobId : String
  parameters : Config
  audio : Bytes

/-- What `run_job` returns; the URI is that of the document with the key. -/
structure LiteResult where
  jobId : String
  transcriptKey : Option String
  transcript : Config

/-- An audio file: an artifact of a job, or a temporary file of a call. -/
inductive AudioPath
  | artifact (jobId : String)
  | temp (call : Nat)
  deriving DecidableEq

/-- Where a call stands: what it awaits next. -/
inductive Phase
  /-- The audio is being written to the artifact store. -/
  | writing
  /-- The first envelope is being published. -/
  | entering
  /-- The stages are left to poll in this round. -/
  | polling (rest : List Stage)
  /-- An engine works on a request. -/
  | executing (posted : Posted) (request : EngineRequest) (rest : List Stage)
  /-- The response is being written to the artifact store. -/
  | storing (posted : Posted) (payload : Config) (rest : List Stage)
  /-- The envelope of the next stage is being published. -/
  | advancing (posted : Posted) (rest : List Stage)
  | acknowledging (posted : Posted) (rest : List Stage)
  /-- The transcript is being written to the artifact store. -/
  | publishing (posted : Posted) (result : LiteResult)
  | finishing (posted : Posted) (result : LiteResult)
  | returned (result : LiteResult)
  | raised

/-- The call is under way. -/
def Phase.live : Phase → Bool
  | returned _ | raised => false
  | _ => true

structure CallState where
  call : LiteCall
  phase : Phase

/-- A request that was made for an envelope, with the call whose envelope it was. -/
structure Execution where
  owner : Nat
  request : EngineRequest

/-- The pipeline, its artifact store, and the calls made on it. -/
structure LiteState where
  counter : Nat
  tasks : Nat
  queue : List Posted
  inFlight : List QueueEnvelope
  stageOutputs : Dict (Dict Config)
  audioFiles : AudioPath → Option Bytes
  documents : Dict Config
  calls : List CallState
  executed : List Execution

inductive LiteAction
  /-- `run_job` is called. -/
  | start (call : LiteCall)
  /-- The call's await ends without an exception. -/
  | proceed (i : Nat)
  /-- A poll ends without an envelope. -/
  | expire (i : Nat)
  /-- The call's await raises. -/
  | fail (i : Nat)

end State

section Steps

variable (pipeline : LitePipeline)

/-- Where the audio of a call is for its engines. -/
def audioPath (call : LiteCall) (i : Nat) : AudioPath :=
  if pipeline.persistArtifacts ∧ pipeline.fileStore then .artifact call.jobId else .temp i

namespace LiteState

variable (s : LiteState)

def setPhase (i : Nat) (phase : Phase) : LiteState :=
  { s with calls := s.calls.modify i fun c => { c with phase } }

def setFile (path : AudioPath) (content : Option Bytes) : LiteState :=
  { s with audioFiles := fun other => if other = path then content else s.audioFiles other }

/-- `enqueue`, for the job of a call. -/
def enqueue (stage : Stage) (jobId : String) (owner : Nat) : LiteState :=
  { s with
      counter := s.counter + 1
      tasks := s.tasks + 1
      queue := s.queue ++ [⟨⟨s.counter + 1, stage, s.tasks, jobId⟩, owner⟩] }

/-- The next envelope of a stage. -/
def head? (stage : Stage) : Option Posted := s.queue.find? fun posted => posted.stage = stage

/-- The queue without the next envelope of a stage, which is then in flight. -/
def take (stage : Stage) (posted : Posted) : LiteState :=
  { s with
      queue := s.queue.eraseP fun posted => posted.stage = stage
      inFlight := s.inFlight ++ [posted.toQueueEnvelope] }

/-- `ack`. -/
def ack (messageId : Nat) : LiteState :=
  { s with inFlight := s.inFlight.filter fun envelope => envelope.messageId ≠ messageId }

/-- The outputs of a job's stages so far. -/
def outputs (jobId : String) : Dict Config := s.stageOutputs.getD jobId []

/-- `_record_stage_output`. -/
def recordStageOutput (jobId : String) (stage : Stage) (payload : Config) : LiteState :=
  { s with
      stageOutputs := s.stageOutputs.set jobId ((s.outputs jobId).set stage.name payload) }

/-- Note a request that is made. -/
def log (owner : Nat) (request : EngineRequest) : LiteState :=
  { s with executed := s.executed ++ [⟨owner, request⟩] }

/-- The `finally` of `run_job`. -/
def cleanUp (call : LiteCall) (i : Nat) : LiteState :=
  { s with stageOutputs := s.stageOutputs.erase call.jobId }.setFile (.temp i) none

/-- The audio is written and the loop entered. -/
def enter (call : LiteCall) (i : Nat) : LiteState :=
  (s.setFile (audioPath pipeline call i) (some call.audio)).setPhase i .entering

end LiteState

/-- `run_job` up to its first await. -/
def startCall (s : LiteState) (call : LiteCall) : LiteState :=
  let i := s.calls.length
  match validateRequest pipeline.profile call.parameters with
  | some _ => { s with calls := s.calls ++ [⟨call, .raised⟩] }
  | none =>
      let s : LiteState :=
        { s with
            stageOutputs := s.stageOutputs.set call.jobId []
            calls := s.calls ++ [⟨call, .writing⟩] }
      if pipeline.persistArtifacts then s else s.enter pipeline call i

/-- The request a call makes for an envelope: the job is the envelope's, the parameters and
the audio are the call's. -/
def requestFor (s : LiteState) (call : LiteCall) (posted : Posted) : EngineRequest where
  taskId := posted.taskId
  jobId := posted.jobId
  stage := posted.stage
  config := stageConfig pipeline posted.stage call.parameters
  previousResponses := s.outputs posted.jobId
  payload := some call.audio
  audio := none

/-- The keys of a job's documents in the artifact store. -/
def responseKey (jobId : String) (stage : Stage) : String :=
  "jobs/" ++ jobId ++ "/tasks/" ++ stage.name ++ "/response.json"

def transcriptKey (jobId : String) : String := "jobs/" ++ jobId ++ "/transcript.json"

/-- `_handle_stage` up to its first await. -/
def handleStage (s : LiteState) (call : LiteCall) (i : Nat) (posted : Posted)
    (rest : List Stage) : LiteState :=
  match posted.stage with
  | .prepare => s.setPhase i (.advancing posted rest)
  | .transcribe | .diarize | .piiDetect =>
      s.setPhase i (.executing posted (requestFor pipeline s call posted) rest)
  | .merge =>
      match mergeOutputs pipeline.profile posted.jobId (s.outputs posted.jobId) with
      | .error _ => (s.cleanUp call i).setPhase i .raised
      | .ok transcript =>
          if pipeline.persistArtifacts then
            let key := transcriptKey posted.jobId
            s.setPhase i (.publishing posted ⟨posted.jobId, some key, transcript⟩)
          else s.setPhase i (.finishing posted ⟨posted.jobId, none, transcript⟩)

/-- The request with what is in the audio file when the engine runs. -/
def EngineRequest.withAudio (request : EngineRequest) (content : Option Bytes) : EngineRequest :=
  { request with audio := if request.stage.hearsAudio then content else none }

/-- The engine has run; its output is recorded. -/
def finishStage (s : LiteState) (call : LiteCall) (i : Nat) (posted : Posted)
    (request : EngineRequest) (rest : List Stage) : LiteState :=
  let request := request.withAudio (s.audioFiles (audioPath pipeline call i))
  let s := s.log posted.owner request
  match executeStage pipeline request with
  | .error _ => (s.cleanUp call i).setPhase i .raised
  | .ok payload =>
      let s := s.recordStageOutput posted.jobId posted.stage payload
      if pipeline.persistArtifacts then s.setPhase i (.storing posted payload rest)
      else s.setPhase i (.advancing posted rest)

/-- The await of a call ends. -/
def proceed (s : LiteState) (i : Nat) (call : LiteCall) : Phase → LiteState
  | .writing => s.enter pipeline call i
  | .entering =>
      (s.enqueue .prepare call.jobId i).setPhase i (.polling (stages pipeline.profile))
  | .polling [] => s.setPhase i (.polling (stages pipeline.profile))
  | .polling (stage :: rest) =>
      match s.head? stage with
      | none => s
      | some posted => handleStage pipeline (s.take stage posted) call i posted rest
  | .executing posted request rest => finishStage pipeline s call i posted request rest
  | .storing posted payload rest =>
      { s with documents := s.documents.set (responseKey posted.jobId posted.stage) payload
          }.setPhase i (.advancing posted rest)
  | .advancing posted rest =>
      (s.enqueue (nextStage pipeline.profile posted.stage) posted.jobId posted.owner).setPhase i
        (.acknowledging posted rest)
  | .acknowledging posted rest => (s.ack posted.messageId).setPhase i (.polling rest)
  | .publishing posted result =>
      { s with documents := s.documents.set (transcriptKey result.jobId) result.transcript
          }.setPhase i (.finishing posted result)
  | .finishing posted result =>
      ((s.ack posted.messageId).cleanUp call i).setPhase i (.returned result)
  | .returned _ | .raised => s

/-- A call raises; before its audio is written there is nothing to clean up. -/
def raiseCall (s : LiteState) (i : Nat) (call : LiteCall) : Phase → LiteState
  | .writing => s.setPhase i .raised
  | .returned _ | .raised => s
  | _ => (s.cleanUp call i).setPhase i .raised

/-- A poll without an envelope. -/
def expire (s : LiteState) (i : Nat) : Phase → LiteState
  | .polling (_ :: rest) => s.setPhase i (.polling rest)
  | _ => s

def LiteState.next (s : LiteState) : LiteAction → LiteState
  | .start call => startCall pipeline s call
  | .proceed i =>
      match s.calls[i]? with
      | none => s
      | some c => proceed pipeline s i c.call c.phase
  | .expire i =>
      match s.calls[i]? with
      | none => s
      | some c => expire s i c.phase
  | .fail i =>
      match s.calls[i]? with
      | none => s
      | some c => raiseCall s i c.call c.phase

/-- A pipeline on which nothing has been called. -/
def freshState (audioFiles : AudioPath → Option Bytes) (documents : Dict Config) : LiteState where
  counter := 0
  tasks := 0
  queue := []
  inFlight := []
  stageOutputs := []
  audioFiles
  documents
  calls := []
  executed := []

end Steps

end Dalston.Orchestrator.Lite
