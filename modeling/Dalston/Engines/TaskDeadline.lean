import Dalston.Foundation.Actions
import Dalston.Foundation.Dict
import Dalston.Model.Rows

/-!
# The deadline of a task

The scheduler computes a timeout from the length of the audio and the speed of
the engine and writes the deadline into the stream message of the attempt. The
scanner judges the attempt by that field. The runner looks for the deadline in
the task's hash, where nobody writes it, and falls back to its default; it
computes in a thread of an executor, and leaving the executor waits for the
thread.

## Implementation notes

Instants and durations are in microseconds, the resolution of the texts that
carry them; the text of an instant is the instant. Durations of audio and speeds
are rational numbers.
-/

namespace Dalston.Engines.Deadline

open Foundation Model

/-- A point in time, in microseconds. -/
abbrev Instant := Nat

def seconds (n : Nat) : Nat := n * 1000000

section Timeouts

def TASK_UNKNOWN_DURATION_TIMEOUT_S : Nat := 3600

def MIN_TIMEOUT_S : Nat := 60

def DEFAULT_RTF : Rat := 1

def TIMEOUT_SAFETY_FACTOR : Rat := 3

/-- The speed on the hardware that is preferred. -/
def selectRtf (rtfGpu rtfCpu : Option Rat) (useGpu : Bool) : Option Rat :=
  if useGpu && rtfGpu.isSome then rtfGpu else rtfCpu.or rtfGpu

/-- `calculate_task_timeout`. -/
def calculateTaskTimeout (audioDuration rtfGpu rtfCpu : Option Rat) (useGpu : Bool) : Nat :=
  match audioDuration.filter (0 < ·) with
  | none => TASK_UNKNOWN_DURATION_TIMEOUT_S
  | some duration =>
      let rtf := ((selectRtf rtfGpu rtfCpu useGpu).filter (0 < ·)).getD DEFAULT_RTF
      max (duration * rtf * TIMEOUT_SAFETY_FACTOR).floor.toNat MIN_TIMEOUT_S

end Timeouts

/-- The value of a field of a task's hash. -/
inductive FieldValue
  | text (value : String)
  | instant (at_ : Instant)

/-- The hash `dalston:task:{task_id}`; one that does not exist has no fields. -/
abbrev TaskHash := Dict FieldValue

/-- A message of an engine's stream. -/
structure TaskMessage where
  id : Nat
  stage : String
  taskId : Uuid
  enqueuedAt : Instant
  timeoutAt : Instant

/-- What the scheduler, the scanner, the reconciler and the engines share in Redis. -/
structure QueueStore where
  metadata : Uuid → TaskHash
  stream : List TaskMessage
  nextMessageId : Nat
  dedupeKeys : List String

namespace QueueStore

def hset (s : QueueStore) (taskId : Uuid) (mapping : TaskHash) : QueueStore :=
  { s with metadata := Function.update s.metadata taskId ((s.metadata taskId).merge mapping) }

def hdel (s : QueueStore) (taskId : Uuid) (fields : List String) : QueueStore :=
  { s with metadata := Function.update s.metadata taskId ((s.metadata taskId).eraseAll fields) }

/-- The hash has lived as long as it was to. -/
def expire (s : QueueStore) (taskId : Uuid) : QueueStore :=
  { s with metadata := Function.update s.metadata taskId [] }

/-- `add_task`. -/
def addTask (s : QueueStore) (stage : String) (taskId : Uuid) (now : Instant) (timeoutS : Nat) :
    QueueStore :=
  { s with
      stream := s.stream ++ [{
        id := s.nextMessageId, stage, taskId, enqueuedAt := now
        timeoutAt := now + seconds timeoutS }]
      nextMessageId := s.nextMessageId + 1 }

/-- `add_task_once`: a key that exists adds nothing. -/
def addTaskOnce (s : QueueStore) (stage : String) (taskId : Uuid) (now : Instant)
    (timeoutS : Nat) (dedupeKey : String) : Option QueueStore :=
  if dedupeKey ∈ s.dedupeKeys then none
  else some { s.addTask stage taskId now timeoutS with dedupeKeys := dedupeKey :: s.dedupeKeys }

end QueueStore

structure DeadlineSettings where
  engineUnavailableBehavior : String
  engineWaitTimeoutSeconds : Nat
  taskStaleTimeoutS : Nat

/-- The capabilities of a catalog entry that decide the timeout. -/
structure CatalogTimes where
  executionProfile : String
  rtfGpu : Option Rat
  rtfCpu : Option Rat

/-- A call of `queue_task`, with what it finds. -/
structure QueueRequest where
  taskId : Uuid
  jobId : String
  stage : String
  engineId : String
  /-- `_on_demand_wait` of the task's configuration. -/
  onDemandWait : Bool
  /-- `audio_duration` of the task's configuration. -/
  configDuration : Option Rat
  /-- `duration` of the audio metadata. -/
  audioDuration : Option Rat
  catalogEntry : Option CatalogTimes
  engineAvailable : Bool
  requestId : Option String
  traceContext : Option String
  requestBindings : String
  resolvedArtifactIds : String
  dedupeKey : Option String
  /-- When the hash is written. -/
  now : Instant
  /-- When the message is added. -/
  addedAt : Instant

inductive QueueTaskError
  | catalogValidation
  | engineUnavailable

namespace QueueRequest

variable (settings : DeadlineSettings) (request : QueueRequest)

/-- How an unavailable engine is met, and for how long it is waited for. -/
def waitBehavior : String × Nat :=
  if request.onDemandWait then ("wait", settings.taskStaleTimeoutS)
  else (settings.engineUnavailableBehavior, settings.engineWaitTimeoutSeconds)

def waitTimeoutS : Nat := (request.waitBehavior settings).2

/-- The task waits for an engine. -/
def waits : Bool := !request.engineAvailable

def baseTimeout : Nat :=
  calculateTaskTimeout (request.audioDuration.or request.configDuration)
    (request.catalogEntry.bind (·.rtfGpu)) (request.catalogEntry.bind (·.rtfCpu)) true

/-- The timeout of the attempt, in seconds. -/
def timeoutS : Nat :=
  if request.waits then request.baseTimeout + request.waitTimeoutS settings
  else request.baseTimeout

def waitFields : TaskHash :=
  if request.waits then
    [("waiting_for_engine", .text "true"), ("wait_enqueued_at", .instant request.now),
      ("wait_timeout_s", .text (toString (request.waitTimeoutS settings))),
      ("wait_deadline_at", .instant (request.now + seconds (request.waitTimeoutS settings)))]
  else []

/-- `metadata_mapping`. -/
def metadataMapping : TaskHash :=
  [("job_id", .text request.jobId), ("stage", .text request.stage),
    ("engine_id", .text request.engineId), ("queue_id", .text request.engineId),
    ("execution_profile",
      .text ((request.catalogEntry.map (·.executionProfile)).getD "container")),
    ("enqueued_at", .instant request.now)] ++
    request.waitFields settings ++
    Dict.optional "request_id" (request.requestId.map .text) ++
    Dict.optional "_trace_context" (request.traceContext.map .text)

/-- The fields of the written request document. -/
def documentMapping : TaskHash :=
  [("request_bindings_json", .text request.requestBindings),
    ("resolved_artifact_ids_json", .text request.resolvedArtifactIds)]

/-- The hash once the metadata and the document are written. -/
def describe (s : QueueStore) : QueueStore :=
  (s.hset request.taskId (request.metadataMapping settings)).hset request.taskId
    request.documentMapping

/-- Add the message; one that was added under the same key is not added again. -/
def addMessage (s : QueueStore) : Option QueueStore :=
  match request.dedupeKey with
  | some key =>
      s.addTaskOnce request.engineId request.taskId request.addedAt (request.timeoutS settings) key
  | none => some (s.addTask request.engineId request.taskId request.addedAt
      (request.timeoutS settings))

/-- Write the metadata and the document, add the message and note its id. -/
def enqueue (s : QueueStore) : QueueStore :=
  let s := request.describe settings s
  match request.addMessage settings s with
  | some s' => s'.hset request.taskId [("stream_message_id", .text (toString s.nextMessageId))]
  | none => s

/-- `queue_task`. -/
def queueTask (s : QueueStore) : Except QueueTaskError QueueStore :=
  if request.catalogEntry.any (·.executionProfile ≠ "container") then .error .catalogValidation
  else if request.waits && (request.waitBehavior settings).1 = "fail_fast" then
    .error .engineUnavailable
  else .ok (request.enqueue settings s)

end QueueRequest

def clearedFields : List String :=
  ["waiting_for_engine", "wait_deadline_at", "wait_timeout_s", "wait_enqueued_at"]

/-- What happens to the hashes and the stream. -/
inductive QueueAction
  | queueTask (settings : DeadlineSettings) (request : QueueRequest)
  /-- The scanner blocks a task that nobody took in time. -/
  | block (taskId : Uuid) (now : Instant)
  /-- The scanner or an engine clears the marks of waiting. -/
  | clearWaiting (taskId : Uuid)
  /-- The reconciler adds a stale task again. -/
  | requeueStale (taskId : Uuid) (stage : String) (now : Instant) (timeoutS : Nat)
  /-- The reconciler adds a task again whose message was consumed. -/
  | requeueConsumed (taskId : Uuid) (queueId previous : String) (now : Instant) (timeoutS : Nat)
  /-- An engine notes the artifacts it has produced. -/
  | noteArtifacts (taskId : Uuid) (artifactIds : String)
  | expire (taskId : Uuid)
  /-- A message is deleted or trimmed. -/
  | deleteMessage (id : Nat)

def QueueStore.act (s : QueueStore) : QueueAction → QueueStore
  | .queueTask settings request =>
      match request.queueTask settings s with
      | .ok s => s
      | .error _ => s
  | .block taskId now =>
      s.hset taskId [("blocked_reason", .text "engine_wait_timeout"), ("blocked_at", .instant now)]
  | .clearWaiting taskId => s.hdel taskId clearedFields
  | .requeueStale taskId stage now timeoutS => s.addTask stage taskId now timeoutS
  | .requeueConsumed taskId queueId previous now timeoutS =>
      (s.addTask queueId taskId now timeoutS).hset taskId
        [("queue_id", .text queueId), ("stream_message_id", .text (toString s.nextMessageId)),
          ("reconciler_requeued_at", .instant now),
          ("reconciler_previous_message_id", .text previous)]
  | .noteArtifacts taskId artifactIds =>
      s.hset taskId [("produced_artifact_ids_json", .text artifactIds)]
  | .expire taskId => s.expire taskId
  | .deleteMessage id => { s with stream := s.stream.filter fun m => m.id ≠ id }

/-- No hash has a deadline. -/
def Undated (s : QueueStore) : Prop := ∀ taskId, (s.metadata taskId).get? "timeout_at" = none

section History

variable {s s' : QueueStore} {taskId : Uuid} {settings : DeadlineSettings}
  {request : QueueRequest}

theorem Undated.hset {mapping : TaskHash} (h : Undated s)
    (hmapping : ∀ kv ∈ mapping, kv.1 ≠ "timeout_at") : Undated (s.hset taskId mapping) := by
  intro other
  by_cases heq : other = taskId
  · subst heq
    simp only [QueueStore.hset, Function.update_self]
    rw [Dict.get?_merge_of_ne _ hmapping]
    exact h other
  · simp only [QueueStore.hset, Function.update_of_ne heq]
    exact h other

theorem Undated.hdel {fields : List String} (h : Undated s) : Undated (s.hdel taskId fields) := by
  intro other
  by_cases heq : other = taskId
  · subst heq
    simp only [QueueStore.hdel, Function.update_self, Dict.get?_eraseAll, h other, ite_self]
  · simp only [QueueStore.hdel, Function.update_of_ne heq]
    exact h other

theorem Undated.expire (h : Undated s) : Undated (s.expire taskId) := by
  intro other
  by_cases heq : other = taskId
  · subst heq
    simp [QueueStore.expire]
  · simp only [QueueStore.expire, Function.update_of_ne heq]
    exact h other

theorem Undated.congr (h : Undated s) (hsame : s'.metadata = s.metadata) : Undated s' := by
  intro taskId
  rw [hsame]
  exact h taskId

theorem waitFields_undated : ∀ kv ∈ request.waitFields settings, kv.1 ≠ "timeout_at" := by
  unfold QueueRequest.waitFields
  split <;> simp

theorem metadataMapping_undated :
    ∀ kv ∈ request.metadataMapping settings, kv.1 ≠ "timeout_at" := by
  intro kv hkv
  simp only [QueueRequest.metadataMapping, List.mem_append, Dict.mem_optional] at hkv
  rcases hkv with ((hfixed | hwait) | ⟨_, _, rfl⟩) | ⟨_, _, rfl⟩
  · revert kv
    simp
  · exact waitFields_undated kv hwait
  · simp
  · simp

/-- The scheduler describes a task without its deadline. -/
theorem Undated.describe (h : Undated s) : Undated (request.describe settings s) := by
  apply (h.hset metadataMapping_undated).hset
  simp [QueueRequest.documentMapping]

theorem metadata_addMessage (h : request.addMessage settings s = some s') :
    s'.metadata = s.metadata := by
  unfold QueueRequest.addMessage at h
  split at h
  · unfold QueueStore.addTaskOnce at h
    split at h
    · cases h
    · rw [← Option.some.inj h]
      rfl
  · rw [← Option.some.inj h]
    rfl

theorem Undated.enqueue (h : Undated s) : Undated (request.enqueue settings s) := by
  have hdescribed : Undated (request.describe settings s) := h.describe
  unfold QueueRequest.enqueue
  dsimp only
  split
  · next s' hadd =>
    apply (hdescribed.congr (metadata_addMessage hadd)).hset
    simp
  · exact hdescribed

/-- Nothing writes a deadline into a hash. -/
theorem Undated.act (h : Undated s) (action : QueueAction) : Undated (s.act action) := by
  cases action with
  | queueTask settings request =>
      simp only [QueueStore.act, QueueRequest.queueTask]
      split_ifs
      · exact h
      · exact h
      · exact h.enqueue
  | block taskId now =>
      apply h.hset
      simp
  | clearWaiting taskId => exact h.hdel
  | requeueStale taskId stage now timeoutS => exact h.congr rfl
  | requeueConsumed taskId queueId previous now timeoutS =>
      have hadded : Undated (s.addTask queueId taskId now timeoutS) := h.congr rfl
      apply hadded.hset
      simp
  | noteArtifacts taskId artifactIds =>
      apply h.hset
      simp
  | expire taskId => exact h.expire
  | deleteMessage id => exact h.congr rfl

/-- Any history of the hashes and the stream. -/
abbrev QueueRun : QueueStore → QueueStore → Prop :=
  ActionRun (Acts QueueStore.act) fun _ _ => True

theorem Undated.run (h : Undated s) (run : QueueRun s s') : Undated s' := by
  refine run.invariant h ?_
  rintro s action _ hs rfl _
  exact hs.act action

end History

section Runner

/-- The runner's clock at the two points that decide the deadline. -/
structure Processing where
  /-- When the remaining time is computed. -/
  askedAt : Instant
  /-- When the computation is submitted to the executor. -/
  submittedAt : Instant

/-- The computation of an engine. -/
inductive Computation
  /-- It returns or raises after a time. -/
  | ends (after : Nat) (error : Option String)
  | never

/-- What the runner publishes about the attempt. -/
inductive AttemptReport
  | completed
  | failed (error : String)

/-- `_get_task_timeout`, in microseconds: a deadline that has passed leaves ten seconds. -/
def getTaskTimeout (defaultTimeout : Nat) (metadata : TaskHash) (now : Instant) : Nat :=
  match metadata.get? "timeout_at" with
  | some (.instant timeoutAt) => max (timeoutAt - now) (seconds 10)
  | some (.text _) | none => seconds defaultTimeout

/-- The deadline that is enforced on the computation. -/
def Processing.deadline (p : Processing) (defaultTimeout : Nat) (metadata : TaskHash) : Instant :=
  p.submittedAt + getTaskTimeout defaultTimeout metadata p.askedAt

/-- When the computation has ended. -/
def Computation.endsAt (submittedAt : Instant) : Computation → Option Instant
  | .ends after _ => some (submittedAt + after)
  | .never => none

/-- `future.result(timeout=…)`: the result, or the timeout when it comes first. -/
def Computation.result (timeout : Nat) : Computation → AttemptReport
  | .ends after error =>
      if after ≤ timeout then
        match error with
        | none => .completed
        | some error => .failed error
      else .failed s!"Task processing exceeded {timeout / 1000000}s timeout"
  | .never => .failed s!"Task processing exceeded {timeout / 1000000}s timeout"

/-- The timeout guard of `_process_task`: the report, and when it is made. Leaving the executor
waits for the thread, also when the timeout was raised. -/
def Processing.report (p : Processing) (defaultTimeout : Nat) (metadata : TaskHash)
    (computation : Computation) : Option (Instant × AttemptReport) :=
  (computation.endsAt p.submittedAt).map fun endedAt =>
    (endedAt, computation.result (getTaskTimeout defaultTimeout metadata p.askedAt))

/-- `_check_task_timeout` of the scanner. -/
def TaskMessage.timedOut (message : TaskMessage) (now : Instant) : Bool := message.timeoutAt < now

/-- The computation is still running at an instant. -/
def Computation.runsPast (submittedAt instant : Instant) (computation : Computation) : Prop :=
  ∀ endedAt ∈ computation.endsAt submittedAt, instant < endedAt

/-- What an attempt is to meet. -/
structure MeetsDeadline (defaultTimeout : Nat) (message : TaskMessage) (metadata : TaskHash)
    (p : Processing) (computation : Computation) : Prop where
  /-- The deadline is the one by which the scanner judges, if it leaves ten seconds. -/
  deadline : p.deadline defaultTimeout metadata = max message.timeoutAt (p.askedAt + seconds 10)
  /-- A computation that runs past the deadline is reported as failed then. -/
  prompt : computation.runsPast p.submittedAt (p.deadline defaultTimeout metadata) →
    ∃ error, p.report defaultTimeout metadata computation =
      some (p.deadline defaultTimeout metadata, .failed error)

variable {defaultTimeout : Nat} {metadata : TaskHash} {message : TaskMessage} {p : Processing}
  {computation : Computation}

theorem getTaskTimeout_undated (h : metadata.get? "timeout_at" = none) (now : Instant) :
    getTaskTimeout defaultTimeout metadata now = seconds defaultTimeout := by
  rw [getTaskTimeout, h]

/-- The report never comes before the computation has ended. -/
theorem report_iff {instant : Instant} {report : AttemptReport} :
    p.report defaultTimeout metadata computation = some (instant, report) ↔
      computation.endsAt p.submittedAt = some instant ∧
        computation.result (getTaskTimeout defaultTimeout metadata p.askedAt) = report := by
  rw [Processing.report, Option.map_eq_some_iff]
  constructor
  · rintro ⟨endedAt, hends, heq⟩
    obtain ⟨rfl, rfl⟩ := Prod.mk.inj heq
    exact ⟨hends, rfl⟩
  · rintro ⟨hends, rfl⟩
    exact ⟨instant, hends, rfl⟩

/-- A computation that runs past the deadline is not reported at the deadline. -/
theorem not_prompt (h : computation.runsPast p.submittedAt (p.deadline defaultTimeout metadata)) :
    ¬ ∃ error, p.report defaultTimeout metadata computation =
      some (p.deadline defaultTimeout metadata, .failed error) := by
  rintro ⟨error, hreport⟩
  obtain ⟨hends, _⟩ := report_iff.mp hreport
  exact absurd (h _ hends) (lt_irrefl _)

/-- The computation ends within the time. -/
def Computation.Within (limit : Nat) : Computation → Prop
  | .ends after _ => after ≤ limit
  | .never => False

theorem not_runsPast_iff {limit : Nat} {submittedAt : Instant} :
    ¬ computation.runsPast submittedAt (submittedAt + limit) ↔ computation.Within limit := by
  cases computation with
  | ends after error =>
      simp only [Computation.runsPast, Computation.endsAt, Option.mem_def, Option.some.injEq,
        forall_eq', Nat.add_lt_add_iff_left, Nat.not_lt, Computation.Within]
  | never => simp [Computation.runsPast, Computation.endsAt, Computation.Within]

/-- The runner keeps to the deadline of an attempt exactly when its default ends at the
deadline, and the computation ends by then. -/
theorem meetsDeadline_iff {s₀ s : QueueStore} (h₀ : Undated s₀) (run : QueueRun s₀ s) :
    MeetsDeadline defaultTimeout message (s.metadata message.taskId) p computation ↔
      p.submittedAt + seconds defaultTimeout =
          max message.timeoutAt (p.askedAt + seconds 10) ∧
        computation.Within (seconds defaultTimeout) := by
  have hundated := h₀.run run message.taskId
  have hdeadline : p.deadline defaultTimeout (s.metadata message.taskId) =
      p.submittedAt + seconds defaultTimeout := by
    rw [Processing.deadline, getTaskTimeout_undated hundated]
  constructor
  · intro h
    refine ⟨hdeadline.symm.trans h.deadline, ?_⟩
    have hends : ¬ computation.runsPast p.submittedAt
        (p.submittedAt + seconds defaultTimeout) := by
      rw [← hdeadline]
      exact fun hruns => not_prompt hruns (h.prompt hruns)
    exact not_runsPast_iff.mp hends
  · rintro ⟨hsame, hwithin⟩
    refine ⟨hdeadline.trans hsame, fun hruns => ?_⟩
    rw [hdeadline] at hruns
    exact absurd hruns (not_runsPast_iff.mpr hwithin)

end Runner

def noTasks : QueueStore where
  metadata _ := []
  stream := []
  nextMessageId := 0
  dedupeKeys := []

theorem undated_noTasks : Undated noTasks := fun _ => rfl

def plainSettings : DeadlineSettings where
  engineUnavailableBehavior := "fail_fast"
  engineWaitTimeoutSeconds := 300
  taskStaleTimeoutS := 1800

/-- A transcription of the given length on an engine that is twenty times faster than the audio. -/
def transcription (duration : Option Rat) : QueueRequest where
  taskId := 1
  jobId := "job"
  stage := "transcribe"
  engineId := "faster-whisper"
  onDemandWait := false
  configDuration := none
  audioDuration := duration
  catalogEntry := some { executionProfile := "container", rtfGpu := some (1 / 20), rtfCpu := none }
  engineAvailable := true
  requestId := none
  traceContext := none
  requestBindings := "[]"
  resolvedArtifactIds := "\x7b\x7d"
  dedupeKey := none
  now := 0
  addedAt := 0

/-- The store once the transcription is queued. -/
def queued (duration : Option Rat) : QueueStore :=
  noTasks.act (.queueTask plainSettings (transcription duration))

/-- The message of the transcription, with its timeout in seconds. -/
def queuedMessage (timeoutS : Nat) : TaskMessage where
  id := 0
  stage := "faster-whisper"
  taskId := 1
  enqueuedAt := 0
  timeoutAt := seconds timeoutS

theorem queueRun_queued (duration : Option Rat) : QueueRun noTasks (queued duration) :=
  .single rfl trivial

/-- An audio of unknown length that is taken at once has the default as its timeout. -/
theorem meetsDeadline_unknownDuration :
    MeetsDeadline 3600 (queuedMessage 3600) ((queued none).metadata (queuedMessage 3600).taskId)
      ⟨0, 0⟩ (.ends (seconds 5) none) :=
  have hwithin : seconds 5 ≤ seconds 3600 := by decide +kernel
  (meetsDeadline_iff undated_noTasks (queueRun_queued none)).mpr ⟨by decide +kernel, hwithin⟩

/-- An hour of audio has nine minutes. An engine that takes it after a second is given an hour,
and nothing is reported when its computation never ends. -/
theorem hangs_past_deadline :
    (queued (some 3600)).stream = [queuedMessage 540] ∧
      (⟨seconds 1, seconds 1⟩ : Processing).deadline 3600 ((queued (some 3600)).metadata 1) =
        seconds 3601 ∧
      (⟨seconds 1, seconds 1⟩ : Processing).report 3600 ((queued (some 3600)).metadata 1) .never =
        none ∧
      ¬ MeetsDeadline 3600 (queuedMessage 540) ((queued (some 3600)).metadata 1)
        ⟨seconds 1, seconds 1⟩ .never := by
  have hdeadline : (⟨seconds 1, seconds 1⟩ : Processing).deadline 3600
      ((queued (some 3600)).metadata 1) = seconds 3601 := by decide +kernel
  refine ⟨?_, hdeadline, rfl, fun h => ?_⟩
  · have htimeout : (transcription (some 3600)).timeoutS plainSettings = 540 := by decide +kernel
    change [_] = _
    rw [htimeout]
    rfl
  · have hsame := hdeadline.symm.trans h.deadline
    revert hsame
    decide +kernel

end Dalston.Engines.Deadline
