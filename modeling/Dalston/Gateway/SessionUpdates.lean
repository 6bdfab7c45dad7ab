import Dalston.Realtime.ConfigUpdates

/-!
# Session updates of the OpenAI adapter

An update changes the adapter's configuration, is forwarded to the worker as a
configuration message and is acknowledged with a report. The report is taken from
the update, while only part of the configuration reaches the worker.
-/

namespace Dalston.Gateway

open Foundation Model Realtime

/-- Encoding, client sample rate and worker sample rate. -/
abbrev AudioFormat := String × Nat × Nat

def DEFAULT_AUDIO_FORMAT : AudioFormat := ("pcm_s16le", 24000, 16000)

def OPENAI_AUDIO_FORMAT_MAP : Dict AudioFormat :=
  [("pcm16", DEFAULT_AUDIO_FORMAT),
   ("g711_ulaw", ("mulaw", 8000, 8000)),
   ("g711_alaw", ("alaw", 8000, 8000))]

/-- An array or an object is no key of a dictionary: the lookup raises. -/
def mapOpenaiAudioFormat : Json → Option AudioFormat
  | .str name => some (OPENAI_AUDIO_FORMAT_MAP.getD name DEFAULT_AUDIO_FORMAT)
  | .arr _ | .obj _ => none
  | _ => some DEFAULT_AUDIO_FORMAT

/-- The adapter's configuration of a session, as far as an update or the worker reads it. -/
structure SessionConfig where
  language : Json
  encoding : String
  clientSampleRate : Nat
  sampleRate : Nat
  enableVad : Bool
  prompt : Json
  vadThreshold : Json
  minSilenceDurationMs : Json
  prefixPaddingMs : Json
  noiseReduction : Json

def initialConfig : SessionConfig where
  language := .str "auto"
  encoding := "pcm_s16le"
  clientSampleRate := 24000
  sampleRate := 16000
  enableVad := true
  prompt := .null
  vadThreshold := .num (1 / 2)
  minSilenceDurationMs := .num 500
  prefixPaddingMs := .num 300
  noiseReduction := .null

/-- The worker that opens with the parameters of a configuration. -/
def openSession (config : SessionConfig) : WorkerConfig where
  language := config.language
  encoding := config.encoding
  clientSampleRate := config.clientSampleRate
  sampleRate := config.sampleRate
  enableVad := config.enableVad
  vadThreshold := config.vadThreshold
  minSilenceDurationMs := config.minSilenceDurationMs
  prefixPaddingMs := config.prefixPaddingMs
  vad :=
    if config.enableVad then
      some {
        speechThreshold := config.vadThreshold
        minSilenceDuration := (config.minSilenceDurationMs.number.getD 0) / 1000
        lookbackChunks := lookbackChunks (config.prefixPaddingMs.number.getD 0) }
    else none

/-- The fields of the nested payload shape are copied under their flat names. -/
def withAudioInput (session : Config) : Config :=
  match session.getD "audio" .null with
  | .obj audio =>
      match Dict.getD audio "input" .null with
      | .obj input =>
          let transcription :=
            match Dict.getD input "transcription" .null with
            | .obj fields => some (.obj fields)
            | _ => none
          (((session.merge (Dict.optional "input_audio_format" (Dict.get? input "format"))).merge
            (Dict.optional "input_audio_transcription" transcription)).merge
            (Dict.optional "turn_detection" (Dict.get? input "turn_detection"))).merge
            (Dict.optional "input_audio_noise_reduction" (Dict.get? input "noise_reduction"))
      | _ => session
  | _ => session

/-- The session fields of an update, or the text of its rejection. -/
def normalizeSessionUpdatePayload (data : Config) : Except String Config :=
  match data.getD "session" .null with
  | .null =>
      .ok (withAudioInput (data.filter fun kv => kv.1 ≠ "type" ∧ kv.1 ≠ "event_id"))
  | .obj session =>
      match Dict.getD session "session" .null with
      | .obj _ =>
          .error "Nested payload \x7b'session': \x7b'session': ...\x7d\x7d is invalid"
      | _ => .ok (withAudioInput session)
  | _ => .ok []

/-- The transcription settings of an update; anything but an object counts as none. -/
def transcriptionOf (session : Config) : Config :=
  match session.getD "input_audio_transcription" .null with
  | .obj fields => fields
  | _ => []

/-- The turn detection settings of an update; anything but an object counts as none. -/
def turnSettings (session : Config) : Config :=
  match session.getD "turn_detection" .null with
  | .obj fields => fields
  | _ => []

namespace SessionConfig

def audio (config : SessionConfig) : AudioFormat :=
  (config.encoding, config.clientSampleRate, config.sampleRate)

def updateAudioFormat (format : AudioFormat) (config : SessionConfig) : SessionConfig :=
  { config with
    encoding := format.1, clientSampleRate := format.2.1, sampleRate := format.2.2 }

/-- Only a text that is not empty is kept as a prompt. -/
def promptOf : Json → Json
  | .str s => if s ≠ "" then .str s else .null
  | _ => .null

def updateTranscription (transcription : Config) (config : SessionConfig) : SessionConfig :=
  { config with
    language := transcription.getD "language" config.language
    prompt := ((transcription.get? "prompt").map promptOf).getD config.prompt }

/-- A value that is neither null nor an object leaves the settings as they were. -/
def updateTurnDetection (session : Config) (config : SessionConfig) : SessionConfig :=
  match session.get? "turn_detection" with
  | some .null => { config with enableVad := false }
  | some (.obj turns) =>
      { config with
        enableVad := true
        vadThreshold := Dict.getD turns "threshold" config.vadThreshold
        minSilenceDurationMs := Dict.getD turns "silence_duration_ms" config.minSilenceDurationMs
        prefixPaddingMs := Dict.getD turns "prefix_padding_ms" config.prefixPaddingMs }
  | _ => config

def updateNoiseReduction (value : Json) (config : SessionConfig) : SessionConfig :=
  if Json.present value then { config with noiseReduction := value } else config

/-- The configuration after an update whose audio format was found. -/
def update (session : Config) (format : AudioFormat) (config : SessionConfig) : SessionConfig :=
  (((config.updateAudioFormat format).updateTranscription
    (transcriptionOf session)).updateTurnDetection session).updateNoiseReduction
    (session.getD "input_audio_noise_reduction" .null)

/-- The message that is forwarded to the worker. -/
def configMessage (config : SessionConfig) : Config :=
  [("type", .str "config"),
   ("language", config.language),
   ("vad_threshold", config.vadThreshold),
   ("min_silence_duration_ms", config.minSilenceDurationMs),
   ("prefix_padding_ms", config.prefixPaddingMs)]

end SessionConfig

/-- The configuration that an acknowledgement reports. -/
structure SessionReport where
  inputAudioFormat : Json
  model : Json
  language : Json
  prompt : Json
  turnDetection : Json
  noiseReduction : Json

def reportOf (session : Config) (config : SessionConfig) : SessionReport where
  inputAudioFormat := session.getD "input_audio_format" (.str "pcm16")
  model := (transcriptionOf session).getD "model" (.str "gpt-4o-transcribe")
  language := config.language
  prompt := config.prompt
  turnDetection := session.getD "turn_detection" .null
  noiseReduction := config.noiseReduction

/-- What an update comes to. -/
inductive UpdateResult
  | raised
  | rejected (message : String)
  | updated (session : Config) (config : SessionConfig) (report : SessionReport)

def handleSessionUpdate (data : Config) (config : SessionConfig) : UpdateResult :=
  match normalizeSessionUpdatePayload data with
  | .error message => .rejected message
  | .ok session =>
      match mapOpenaiAudioFormat (session.getD "input_audio_format" (.str "pcm16")) with
      | none => .raised
      | some format =>
          .updated session (config.update session format)
            (reportOf session (config.update session format))

/-- The two sides of a session. -/
structure SessionSides where
  adapter : SessionConfig
  worker : WorkerConfig

/-- An acknowledged update; the worker is missing if its session failed on the message. -/
structure Acknowledgement where
  session : Config
  report : SessionReport
  before : SessionSides
  adapter : SessionConfig
  worker : Option WorkerConfig

/-- The acknowledgements of a series of updates, until one of the two sides fails. -/
def acknowledgements : SessionSides → List Config → List Acknowledgement
  | _, [] => []
  | sides, data :: rest =>
      match handleSessionUpdate data sides.adapter with
      | .raised => []
      | .rejected _ => acknowledgements sides rest
      | .updated session config report =>
          let worker := sides.worker.handleControl config.configMessage
          { session, report, before := sides, adapter := config, worker } ::
            match worker with
            | none => []
            | some worker => acknowledgements { adapter := config, worker } rest

def initialSides : SessionSides where
  adapter := initialConfig
  worker := openSession initialConfig

/-- The reported turn detection is the one in force, thresholds and detector included. -/
def ReportsTurns : Json → WorkerConfig → Prop
  | .null, worker => worker.enableVad = false ∧ worker.vad = none
  | .obj turns, worker =>
      worker.enableVad = true ∧ ∃ vad, worker.vad = some vad ∧
        (∀ value, Dict.get? turns "threshold" = some value →
          worker.vadThreshold = value ∧ vad.speechThreshold = value) ∧
        (∀ value, Dict.get? turns "silence_duration_ms" = some value →
          worker.minSilenceDurationMs = value ∧
            ∃ ms, value.number = some ms ∧ vad.minSilenceDuration = ms / 1000) ∧
        ∀ value, Dict.get? turns "prefix_padding_ms" = some value →
          worker.prefixPaddingMs = value ∧
            ∃ ms, value.number = some ms ∧ vad.lookbackChunks = lookbackChunks ms
  | _, _ => False

/-- The reported configuration is the one in force in the worker. -/
structure SessionReport.InForce (report : SessionReport) (worker : WorkerConfig) : Prop where
  audio : ∃ name format, report.inputAudioFormat = .str name ∧
    OPENAI_AUDIO_FORMAT_MAP.get? name = some format ∧
      (worker.encoding, worker.clientSampleRate, worker.sampleRate) = format
  language : report.language = worker.language
  turns : ReportsTurns report.turnDetection worker

/-- The fields that an update leaves out keep their values on both sides. -/
structure KeepsOmitted (session : Config) (before after : SessionSides) : Prop where
  audio : session.get? "input_audio_format" = none →
    after.adapter.audio = before.adapter.audio ∧
      (after.worker.encoding, after.worker.clientSampleRate, after.worker.sampleRate) =
        (before.worker.encoding, before.worker.clientSampleRate, before.worker.sampleRate)
  language : (transcriptionOf session).get? "language" = none →
    after.adapter.language = before.adapter.language ∧
      after.worker.language = before.worker.language
  prompt : (transcriptionOf session).get? "prompt" = none →
    after.adapter.prompt = before.adapter.prompt
  turns : session.get? "turn_detection" = none →
    after.adapter.enableVad = before.adapter.enableVad ∧
      after.worker.enableVad = before.worker.enableVad
  threshold : (turnSettings session).get? "threshold" = none →
    after.adapter.vadThreshold = before.adapter.vadThreshold ∧
      after.worker.vadThreshold = before.worker.vadThreshold ∧
      after.worker.vad.map (·.speechThreshold) = before.worker.vad.map (·.speechThreshold)
  silence : (turnSettings session).get? "silence_duration_ms" = none →
    after.adapter.minSilenceDurationMs = before.adapter.minSilenceDurationMs ∧
      after.worker.minSilenceDurationMs = before.worker.minSilenceDurationMs ∧
      after.worker.vad.map (·.minSilenceDuration) = before.worker.vad.map (·.minSilenceDuration)
  padding : (turnSettings session).get? "prefix_padding_ms" = none →
    after.adapter.prefixPaddingMs = before.adapter.prefixPaddingMs ∧
      after.worker.prefixPaddingMs = before.worker.prefixPaddingMs ∧
      after.worker.vad.map (·.lookbackChunks) = before.worker.vad.map (·.lookbackChunks)
  noise : session.get? "input_audio_noise_reduction" = none →
    after.adapter.noiseReduction = before.adapter.noiseReduction

/-- The report of an acknowledged update is true of the worker and nothing else changed. -/
def Acknowledgement.Agrees (ack : Acknowledgement) : Prop :=
  ∃ worker, ack.worker = some worker ∧ ack.report.InForce worker ∧
    KeepsOmitted ack.session ack.before { adapter := ack.adapter, worker }

/-- An update of the configuration that the worker can follow: the default audio format, a
language that counts as given, and turn detection switched on with proper thresholds. -/
structure ClearUpdate (session : Config) : Prop where
  audio : ∀ value, session.get? "input_audio_format" = some value → value = .str "pcm16"
  language : ∀ value, (transcriptionOf session).get? "language" = some value →
    value.truthy = true
  turns : ∃ turns, session.get? "turn_detection" = some (.obj turns)
  threshold : ∀ value, (turnSettings session).get? "threshold" = some value →
    Json.present value = true
  silence : ∀ value, (turnSettings session).get? "silence_duration_ms" = some value →
    value.number.isSome = true
  padding : ∀ value, (turnSettings session).get? "prefix_padding_ms" = some value →
    value.number.isSome = true

/-- Every update is clear, up to the first one on which the adapter itself fails. -/
def ClearUpdates : List Config → Prop
  | [] => True
  | data :: rest =>
      match normalizeSessionUpdatePayload data with
      | .error _ => ClearUpdates rest
      | .ok session =>
          mapOpenaiAudioFormat (session.getD "input_audio_format" (.str "pcm16")) = none ∨
            ClearUpdate session ∧ ClearUpdates rest

/-- The adapter's side of the invariant: what the worker can follow is what it was told. -/
structure Followable (config : SessionConfig) : Prop where
  audio : config.audio = DEFAULT_AUDIO_FORMAT
  language : config.language.truthy = true
  enableVad : config.enableVad = true
  threshold : Json.present config.vadThreshold = true
  silence : config.minSilenceDurationMs.number.isSome = true
  padding : config.prefixPaddingMs.number.isSome = true

theorem initialConfig_followable : Followable initialConfig where
  audio := rfl
  language := by simp [initialConfig, Json.truthy]
  enableVad := rfl
  threshold := rfl
  silence := rfl
  padding := rfl

theorem present_of_number {value : Json} (h : value.number.isSome = true) :
    Json.present value = true := by
  cases value <;> first | rfl | cases h

/-- Whether turn detection is on after an update. -/
def turnsEnabled (session : Config) (before : Bool) : Bool :=
  match session.get? "turn_detection" with
  | some .null => false
  | some (.obj _) => true
  | _ => before

section Fields

variable (session : Config) (format : AudioFormat) (config : SessionConfig)

/-- An update of turn detection as lookups in its settings. -/
theorem updateTurnDetection_eq :
    config.updateTurnDetection session =
      { config with
        enableVad := turnsEnabled session config.enableVad
        vadThreshold := (turnSettings session).getD "threshold" config.vadThreshold
        minSilenceDurationMs :=
          (turnSettings session).getD "silence_duration_ms" config.minSilenceDurationMs
        prefixPaddingMs :=
          (turnSettings session).getD "prefix_padding_ms" config.prefixPaddingMs } := by
  unfold SessionConfig.updateTurnDetection turnsEnabled turnSettings Dict.getD
  cases session.get? "turn_detection" with
  | none => rfl
  | some value => cases value <;> rfl

/-- An update as lookups in its fields. -/
theorem update_eq :
    config.update session format =
      { language := (transcriptionOf session).getD "language" config.language
        encoding := format.1
        clientSampleRate := format.2.1
        sampleRate := format.2.2
        enableVad := turnsEnabled session config.enableVad
        prompt := (((transcriptionOf session).get? "prompt").map SessionConfig.promptOf).getD
          config.prompt
        vadThreshold := (turnSettings session).getD "threshold" config.vadThreshold
        minSilenceDurationMs :=
          (turnSettings session).getD "silence_duration_ms" config.minSilenceDurationMs
        prefixPaddingMs := (turnSettings session).getD "prefix_padding_ms" config.prefixPaddingMs
        noiseReduction :=
          if Json.present (session.getD "input_audio_noise_reduction" .null) then
            session.getD "input_audio_noise_reduction" .null
          else config.noiseReduction } := by
  rw [SessionConfig.update, updateTurnDetection_eq, SessionConfig.updateNoiseReduction]
  split <;> rfl

end Fields

/-- The worker reads the forwarded message as an update of these four fields. -/
theorem handleControl_configMessage (config : SessionConfig) (worker : WorkerConfig) :
    worker.handleControl config.configMessage =
      worker.applyUpdate {
        language := config.language
        vadThreshold := config.vadThreshold
        minSilenceDurationMs := config.minSilenceDurationMs
        prefixPaddingMs := config.prefixPaddingMs } := rfl

/-- A worker that is in step with one followable configuration follows to the next. -/
theorem handleControl_openSession {config next : SessionConfig} (h : Followable config)
    (hnext : Followable next) :
    (openSession config).handleControl next.configMessage = some (openSession next) := by
  obtain ⟨silence, hsilence⟩ := Option.isSome_iff_exists.mp hnext.silence
  obtain ⟨padding, hpadding⟩ := Option.isSome_iff_exists.mp hnext.padding
  have haudio : (config.encoding, config.clientSampleRate, config.sampleRate) =
      (next.encoding, next.clientSampleRate, next.sampleRate) := h.audio.trans hnext.audio.symm
  simp only [Prod.mk.injEq] at haudio
  rw [handleControl_configMessage]
  simp [WorkerConfig.applyUpdate, WorkerConfig.updateLanguage, WorkerConfig.updateVadThreshold,
    WorkerConfig.updateMinSilenceDuration, WorkerConfig.updatePrefixPadding, openSession,
    h.enableVad, hnext.enableVad, hnext.language, hnext.threshold, hsilence, hpadding,
    present_of_number hnext.silence, present_of_number hnext.padding, haudio]

section Step

variable {session : Config} {format : AudioFormat} {config : SessionConfig}

theorem turnSettings_eq {turns : Config} (h : session.get? "turn_detection" = some (.obj turns)) :
    turnSettings session = turns := by
  rw [turnSettings, Dict.getD, h]
  rfl

theorem mapOpenaiAudioFormat_clear (hclear : ClearUpdate session)
    (hformat :
      mapOpenaiAudioFormat (session.getD "input_audio_format" (.str "pcm16")) = some format) :
    format = DEFAULT_AUDIO_FORMAT := by
  have h : session.getD "input_audio_format" (.str "pcm16") = .str "pcm16" :=
    Dict.getD_of (P := fun value : Json => value = .str "pcm16") hclear.audio rfl
  rw [h] at hformat
  exact (Option.some.inj hformat).symm

/-- A clear update keeps the configuration followable. -/
theorem followable_update (hclear : ClearUpdate session) (h : Followable config)
    (hformat :
      mapOpenaiAudioFormat (session.getD "input_audio_format" (.str "pcm16")) = some format) :
    Followable (config.update session format) := by
  obtain ⟨turns, hturns⟩ := hclear.turns
  rw [update_eq]
  constructor
  case audio => exact mapOpenaiAudioFormat_clear hclear hformat
  case language =>
    exact Dict.getD_of (P := fun value : Json => value.truthy = true) hclear.language h.language
  case enableVad => simp only [turnsEnabled, hturns]
  case threshold =>
    exact Dict.getD_of (P := fun value : Json => Json.present value = true) hclear.threshold h.threshold
  case silence =>
    exact Dict.getD_of (P := fun value : Json => value.number.isSome = true) hclear.silence h.silence
  case padding =>
    exact Dict.getD_of (P := fun value : Json => value.number.isSome = true) hclear.padding h.padding

/-- What is reported after a clear update is in force. -/
theorem reportOf_inForce (hclear : ClearUpdate session) (h : Followable config)
    (hformat :
      mapOpenaiAudioFormat (session.getD "input_audio_format" (.str "pcm16")) = some format) :
    (reportOf session (config.update session format)).InForce
      (openSession (config.update session format)) := by
  have hnext := followable_update hclear h hformat
  obtain ⟨turns, hturns⟩ := hclear.turns
  constructor
  case audio =>
    exact ⟨"pcm16", DEFAULT_AUDIO_FORMAT,
      Dict.getD_of (P := fun value : Json => value = .str "pcm16") hclear.audio rfl,
      rfl, hnext.audio⟩
  case language => rfl
  case turns =>
    have hreport : (reportOf session (config.update session format)).turnDetection =
        .obj turns := by
      simp [reportOf, Dict.getD, hturns]
    have hsettings := turnSettings_eq hturns
    rw [hreport]
    refine ⟨hnext.enableVad, _, if_pos hnext.enableVad, ?_, ?_, ?_⟩
    · intro value hvalue
      have : (config.update session format).vadThreshold = value := by
        simp [update_eq, hsettings, Dict.getD, hvalue]
      exact ⟨this, this⟩
    · intro value hvalue
      have hms : (config.update session format).minSilenceDurationMs = value := by
        simp [update_eq, hsettings, Dict.getD, hvalue]
      obtain ⟨ms, hnumber⟩ := Option.isSome_iff_exists.mp
        (hclear.silence value (by rw [hsettings]; exact hvalue))
      exact ⟨hms, ms, hnumber, by simp only [hms, hnumber, Option.getD_some]⟩
    · intro value hvalue
      have hms : (config.update session format).prefixPaddingMs = value := by
        simp [update_eq, hsettings, Dict.getD, hvalue]
      obtain ⟨ms, hnumber⟩ := Option.isSome_iff_exists.mp
        (hclear.padding value (by rw [hsettings]; exact hvalue))
      exact ⟨hms, ms, hnumber, by simp only [hms, hnumber, Option.getD_some]⟩

/-- A clear update changes no field that it leaves out. -/
theorem keepsOmitted_update (hclear : ClearUpdate session) (h : Followable config)
    (hformat :
      mapOpenaiAudioFormat (session.getD "input_audio_format" (.str "pcm16")) = some format) :
    KeepsOmitted session { adapter := config, worker := openSession config }
      { adapter := config.update session format,
        worker := openSession (config.update session format) } := by
  have hnext := followable_update hclear h hformat
  have haudio := hnext.audio.trans h.audio.symm
  constructor
  case audio => exact fun _ => ⟨haudio, haudio⟩
  case language =>
    intro hnone
    have : (config.update session format).language = config.language := by
      simp [update_eq, Dict.getD, hnone]
    exact ⟨this, this⟩
  case prompt =>
    intro hnone
    simp [update_eq, hnone]
  case turns =>
    intro _
    have := hnext.enableVad.trans h.enableVad.symm
    exact ⟨this, this⟩
  case threshold =>
    intro hnone
    have : (config.update session format).vadThreshold = config.vadThreshold := by
      simp [update_eq, Dict.getD, hnone]
    exact ⟨this, this, by simp [openSession, hnext.enableVad, h.enableVad, this]⟩
  case silence =>
    intro hnone
    have : (config.update session format).minSilenceDurationMs = config.minSilenceDurationMs := by
      simp [update_eq, Dict.getD, hnone]
    exact ⟨this, this, by simp [openSession, hnext.enableVad, h.enableVad, this]⟩
  case padding =>
    intro hnone
    have : (config.update session format).prefixPaddingMs = config.prefixPaddingMs := by
      simp [update_eq, Dict.getD, hnone]
    exact ⟨this, this, by simp [openSession, hnext.enableVad, h.enableVad, this]⟩
  case noise =>
    intro hnone
    simp [update_eq, Dict.getD, hnone, Json.present]

/-- With the detector on, only an object reports turn detection as it is. -/
theorem obj_of_reportsTurns {value : Json} {worker : WorkerConfig} (h : ReportsTurns value worker)
    (hon : worker.enableVad = true) : ∃ turns, value = .obj turns := by
  cases value with
  | obj turns => exact ⟨turns, rfl⟩
  | null => exact absurd (hon.symm.trans h.1) Bool.noConfusion
  | bool | num | str | arr => exact h.elim

theorem turns_of_getD {turns : Config}
    (h : session.getD "turn_detection" .null = .obj turns) :
    session.get? "turn_detection" = some (.obj turns) := by
  rw [Dict.getD] at h
  cases hvalue : session.get? "turn_detection" with
  | none =>
      rw [hvalue] at h
      cases h
  | some value =>
      rw [hvalue] at h
      exact congrArg some h

/-- Only one audio format is the one that the worker opened with. -/
theorem name_of_default {name : String}
    (h : OPENAI_AUDIO_FORMAT_MAP.get? name = some DEFAULT_AUDIO_FORMAT) : name = "pcm16" := by
  simp only [OPENAI_AUDIO_FORMAT_MAP, DEFAULT_AUDIO_FORMAT, Dict.get?_cons, Dict.get?_nil] at h
  grind

/-- An update whose report is in force was a clear one. -/
theorem clearUpdate_of_inForce {worker : WorkerConfig} (h : Followable config)
    (hworker : (openSession config).handleControl
      (config.update session format).configMessage = some worker)
    (hforce : (reportOf session (config.update session format)).InForce worker) :
    ClearUpdate session := by
  rw [handleControl_configMessage] at hworker
  obtain ⟨_, _, _, rfl⟩ := WorkerConfig.applyUpdate_frame hworker
  obtain ⟨turns, hreported⟩ := obj_of_reportsTurns hforce.turns h.enableVad
  have hturns := turns_of_getD hreported
  have hsettings := turnSettings_eq hturns
  have hreport := hforce.turns
  rw [hreported] at hreport
  obtain ⟨_, vad, _, hthreshold, hsilence, hpadding⟩ := hreport
  constructor
  case audio =>
    intro value hvalue
    obtain ⟨name, found, hname, hfound, haudio⟩ := hforce.audio
    subst haudio
    have hdefault : (config.encoding, config.clientSampleRate, config.sampleRate) =
      DEFAULT_AUDIO_FORMAT := h.audio
    simp only [openSession, hdefault] at hfound
    rw [name_of_default hfound] at hname
    simpa [reportOf, Dict.getD, hvalue] using hname
  case language =>
    intro value hvalue
    have hlanguage := hforce.language
    have hnext : (config.update session format).language = value := by
      simp [update_eq, Dict.getD, hvalue]
    simp only [reportOf, hnext] at hlanguage
    by_contra hfalsy
    rw [if_neg hfalsy] at hlanguage
    exact hfalsy (hlanguage ▸ h.language)
  case turns => exact ⟨turns, hturns⟩
  case threshold =>
    intro value hvalue
    rw [hsettings] at hvalue
    have hnext : (config.update session format).vadThreshold = value := by
      simp [update_eq, hsettings, Dict.getD, hvalue]
    have hforced := (hthreshold value hvalue).1
    simp only [hnext] at hforced
    by_contra habsent
    rw [if_neg habsent] at hforced
    exact habsent (hforced ▸ h.threshold)
  case silence =>
    intro value hvalue
    rw [hsettings] at hvalue
    obtain ⟨_, ms, hms, _⟩ := hsilence value hvalue
    simp [hms]
  case padding =>
    intro value hvalue
    rw [hsettings] at hvalue
    obtain ⟨_, ms, hms, _⟩ := hpadding value hvalue
    simp [hms]

end Step

/-- From two sides in step, the acknowledgements agree exactly while the updates are clear. -/
theorem acknowledgements_agree_iff {config : SessionConfig} (h : Followable config)
    (updates : List Config) :
    (∀ ack ∈ acknowledgements { adapter := config, worker := openSession config } updates,
        ack.Agrees) ↔ ClearUpdates updates := by
  induction updates generalizing config with
  | nil => simp [acknowledgements, ClearUpdates]
  | cons data rest ih =>
      rw [acknowledgements, ClearUpdates, handleSessionUpdate]
      cases normalizeSessionUpdatePayload data with
      | error message => exact ih h
      | ok session =>
          simp only
          cases hformat :
              mapOpenaiAudioFormat (session.getD "input_audio_format" (.str "pcm16")) with
          | none => simp
          | some format =>
              simp only [List.forall_mem_cons, reduceCtorEq, false_or]
              constructor
              · rintro ⟨⟨worker, hworker, hforce, _⟩, hrest⟩
                have hclear := clearUpdate_of_inForce h hworker hforce
                have hnext := followable_update hclear h hformat
                rw [handleControl_openSession h hnext] at hrest
                exact ⟨hclear, (ih hnext).mp hrest⟩
              · rintro ⟨hclear, hrest⟩
                have hnext := followable_update hclear h hformat
                rw [handleControl_openSession h hnext]
                exact ⟨⟨_, rfl, reportOf_inForce hclear h hformat,
                  keepsOmitted_update hclear h hformat⟩, (ih hnext).mpr hrest⟩

/-- Every acknowledged update of a session agrees with the worker exactly if every update
asks for the default audio format and for turn detection, with values of their kind. -/
theorem updatesAgree_iff (updates : List Config) :
    (∀ ack ∈ acknowledgements initialSides updates, ack.Agrees) ↔ ClearUpdates updates :=
  acknowledgements_agree_iff initialConfig_followable updates

/-- An update that names the language only. -/
def languageUpdate : Config :=
  [("type", .str "transcription_session.update"),
   ("session", .obj [("input_audio_transcription", .obj [("language", .str "en")])])]

/-- The update is acknowledged without turn detection, which the worker goes on with. -/
theorem updates_disagree :
    ¬ ∀ updates : List Config, ∀ ack ∈ acknowledgements initialSides updates, ack.Agrees := by
  intro h
  obtain ⟨worker, hworker, hforce, _⟩ := h [languageUpdate] _ List.mem_cons_self
  have hworker : some (openSession { initialConfig with language := .str "en" }) = some worker :=
    hworker
  rw [← Option.some.inj hworker] at hforce
  exact absurd hforce.turns.1 Bool.noConfusion

end Dalston.Gateway
