import Dalston.Model.Json

/-!
# Control messages of a realtime session

The messages that a client sends to a worker, and what a configuration update does
to the configuration in force. The detector has its own copies of the thresholds.
-/

namespace Dalston.Realtime

open Foundation Model

/-- The fields of an update; a missing field is null. -/
structure ConfigUpdateMessage where
  language : Json
  vadThreshold : Json
  minSilenceDurationMs : Json
  prefixPaddingMs : Json

inductive ClientMessage
  | configUpdate (message : ConfigUpdateMessage)
  | flush
  | clear
  | end

/-- The message of an object that has been decoded, or none if its type is unknown. -/
def parseClientMessage (parsed : Config) : Option ClientMessage :=
  let msgType := parsed.getD "type" .null
  if msgType.equalsText "config" then
    some (.configUpdate {
      language := parsed.getD "language" .null
      vadThreshold := parsed.getD "vad_threshold" .null
      minSilenceDurationMs := parsed.getD "min_silence_duration_ms" .null
      prefixPaddingMs := parsed.getD "prefix_padding_ms" .null })
  else if msgType.equalsText "flush" then some .flush
  else if msgType.equalsText "clear" then some .clear
  else if msgType.equalsText "end" then some .end
  else none

/-- The thresholds of the detector. -/
structure VadSettings where
  speechThreshold : Json
  minSilenceDuration : Rat
  lookbackChunks : Int

/-- The part of a session's configuration that describes audio, language and turns. -/
structure WorkerConfig where
  language : Json
  encoding : String
  clientSampleRate : Nat
  sampleRate : Nat
  enableVad : Bool
  vadThreshold : Json
  minSilenceDurationMs : Json
  prefixPaddingMs : Json
  vad : Option VadSettings

def BUFFER_CHUNK_DURATION_MS : Rat := 100

def lookbackChunks (prefixPaddingMs : Rat) : Int :=
  max 1 (roundHalfEven (prefixPaddingMs / BUFFER_CHUNK_DURATION_MS))

def Json.present : Json → Bool
  | .null => false
  | _ => true

namespace WorkerConfig

def updateLanguage (value : Json) (worker : WorkerConfig) : WorkerConfig :=
  if value.truthy then { worker with language := value } else worker

def updateVadThreshold (value : Json) (worker : WorkerConfig) : WorkerConfig :=
  if Json.present value then
    { worker with
        vadThreshold := value
        vad := worker.vad.map fun vad => { vad with speechThreshold := value } }
  else worker

/-- The detector needs a number; anything else raises. -/
def updateMinSilenceDuration (value : Json) (worker : WorkerConfig) : Option WorkerConfig :=
  if Json.present value then
    match worker.vad, value.number with
    | none, _ => some { worker with minSilenceDurationMs := value }
    | some vad, some ms =>
        some { worker with
          minSilenceDurationMs := value
          vad := some { vad with minSilenceDuration := ms / 1000 } }
    | some _, none => none
  else some worker

def updatePrefixPadding (value : Json) (worker : WorkerConfig) : Option WorkerConfig :=
  if Json.present value then
    match worker.vad, value.number with
    | none, _ => some { worker with prefixPaddingMs := value }
    | some vad, some ms =>
        some { worker with
          prefixPaddingMs := value
          vad := some { vad with lookbackChunks := lookbackChunks ms } }
    | some _, none => none
  else some worker

/-- The configuration after an update, or none if the session fails. -/
def applyUpdate (message : ConfigUpdateMessage) (worker : WorkerConfig) : Option WorkerConfig :=
  (((worker.updateLanguage message.language).updateVadThreshold
    message.vadThreshold).updateMinSilenceDuration message.minSilenceDurationMs).bind
    (updatePrefixPadding message.prefixPaddingMs)

/-- The configuration after a control message. -/
def handleControl (parsed : Config) (worker : WorkerConfig) : Option WorkerConfig :=
  match parseClientMessage parsed with
  | some (.configUpdate message) => worker.applyUpdate message
  | _ => some worker

theorem updateMinSilenceDuration_frame {value : Json} {worker worker' : WorkerConfig}
    (h : worker.updateMinSilenceDuration value = some worker') :
    ∃ ms vad, worker' = { worker with minSilenceDurationMs := ms, vad := vad } := by
  unfold updateMinSilenceDuration at h
  split at h
  · split at h
    · exact ⟨_, _, (Option.some.inj h).symm⟩
    · exact ⟨_, _, (Option.some.inj h).symm⟩
    · cases h
  · exact ⟨_, _, (Option.some.inj h).symm⟩

theorem updatePrefixPadding_frame {value : Json} {worker worker' : WorkerConfig}
    (h : worker.updatePrefixPadding value = some worker') :
    ∃ ms vad, worker' = { worker with prefixPaddingMs := ms, vad := vad } := by
  unfold updatePrefixPadding at h
  split at h
  · split at h
    · exact ⟨_, _, (Option.some.inj h).symm⟩
    · exact ⟨_, _, (Option.some.inj h).symm⟩
    · cases h
  · exact ⟨_, _, (Option.some.inj h).symm⟩

/-- An update can change the language, the thresholds and the detector, and nothing else. -/
theorem applyUpdate_frame {message : ConfigUpdateMessage} {worker worker' : WorkerConfig}
    (h : worker.applyUpdate message = some worker') :
    ∃ silence padding vad, worker' =
      { worker with
        language := if message.language.truthy then message.language else worker.language
        vadThreshold :=
          if Json.present message.vadThreshold then message.vadThreshold
          else worker.vadThreshold
        minSilenceDurationMs := silence
        prefixPaddingMs := padding
        vad := vad } := by
  obtain ⟨next, hnext, hworker⟩ := Option.bind_eq_some_iff.mp h
  obtain ⟨silence, _, rfl⟩ := updateMinSilenceDuration_frame hnext
  obtain ⟨padding, vad, rfl⟩ := updatePrefixPadding_frame hworker
  refine ⟨silence, padding, vad, ?_⟩
  unfold updateVadThreshold updateLanguage
  split <;> split <;> rfl

end WorkerConfig

end Dalston.Realtime
