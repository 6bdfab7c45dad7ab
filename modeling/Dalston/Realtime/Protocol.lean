import Dalston.Model.Json

/-!
# Realtime server messages

The messages that a realtime worker sends to its client, with the JSON object
that each of them is sent as. An optional field that is missing has no key.

## Implementation notes

The text of a message is represented by the object it decodes to. Times are
rational numbers.
-/

namespace Dalston.Realtime

open Foundation Model

structure WordInfo where
  word : String
  start : Rat
  «end» : Rat
  confidence : Rat

def WordInfo.toDict (info : WordInfo) : Config :=
  [("word", .str info.word), ("start", .num info.start), ("end", .num info.end),
    ("confidence", .num info.confidence)]

structure SegmentInfo where
  start : Rat
  «end» : Rat
  text : String

def SegmentInfo.toDict (info : SegmentInfo) : Config :=
  [("start", .num info.start), ("end", .num info.end), ("text", .str info.text)]

/-- The session configuration echoed back to the client. -/
structure SessionConfigInfo where
  sampleRate : Int
  encoding : String
  channels : Int
  language : String
  model : String

def SessionConfigInfo.toDict (info : SessionConfigInfo) : Config :=
  [("sample_rate", .num info.sampleRate), ("encoding", .str info.encoding),
    ("channels", .num info.channels), ("language", .str info.language),
    ("model", .str info.model)]

structure SessionBeginMessage where
  sessionId : String
  config : SessionConfigInfo
  resumedFrom : Option String := none

structure TranscriptPartialMessage where
  text : String
  start : Rat
  «end» : Rat

structure TranscriptFinalMessage where
  text : String
  start : Rat
  «end» : Rat
  confidence : Rat
  words : Option (List WordInfo) := none

structure SessionEndMessage where
  sessionId : String
  totalAudioSeconds : Rat
  totalSpeechDuration : Rat
  transcript : String
  segments : List SegmentInfo
  audioUri : Option String := none
  transcriptUri : Option String := none

structure ErrorMessage where
  code : String
  message : String
  recoverable : Bool := true

/-- Sent when the lag crosses the warning threshold. -/
structure ProcessingLagWarningMessage where
  lagSeconds : Rat
  warningThresholdSeconds : Rat
  hardThresholdSeconds : Rat
  message : String := "Processing lag is above threshold"

structure RecoveryHint where
  action : String
  bufferWindowMs : Int
  retryAfterMs : Int

def RecoveryHint.toDict (hint : RecoveryHint) : Config :=
  [("action", .str hint.action), ("buffer_window_ms", .num hint.bufferWindowMs),
    ("retry_after_ms", .num hint.retryAfterMs)]

structure SessionTerminatedMessage where
  sessionId : String
  reason : String
  recoverable : Bool
  lastTranscriptOffsetMs : Option Int := none
  recoveryHint : Option RecoveryHint := none

inductive ServerMessage
  | sessionBegin (message : SessionBeginMessage)
  | transcriptPartial (message : TranscriptPartialMessage)
  | transcriptFinal (message : TranscriptFinalMessage)
  | vadSpeechStart (timestamp : Rat)
  | vadSpeechEnd (timestamp : Rat)
  | sessionEnd (message : SessionEndMessage)
  | error (message : ErrorMessage)
  | processingLagWarning (message : ProcessingLagWarningMessage)
  | sessionTerminated (message : SessionTerminatedMessage)

namespace ServerMessage

/-- The `type` of the message. -/
def type : ServerMessage → String
  | sessionBegin _ => "session.begin"
  | transcriptPartial _ => "transcript.partial"
  | transcriptFinal _ => "transcript.final"
  | vadSpeechStart _ => "vad.speech_start"
  | vadSpeechEnd _ => "vad.speech_end"
  | sessionEnd _ => "session.end"
  | error _ => "error"
  | processingLagWarning _ => "warning"
  | sessionTerminated _ => "session.terminated"

/-- The keys of the message other than its `type`. -/
def body : ServerMessage → Config
  | sessionBegin m =>
      [("session_id", .str m.sessionId), ("config", .obj m.config.toDict)] ++
        Dict.optional "resumed_from" (m.resumedFrom.map .str)
  | transcriptPartial m => [("text", .str m.text), ("start", .num m.start), ("end", .num m.end)]
  | transcriptFinal m =>
      [("text", .str m.text), ("start", .num m.start), ("end", .num m.end),
        ("confidence", .num m.confidence)] ++
        Dict.optional "words" (m.words.map fun words => .arr (words.map fun w => .obj w.toDict))
  | vadSpeechStart timestamp => [("timestamp", .num timestamp)]
  | vadSpeechEnd timestamp => [("timestamp", .num timestamp)]
  | sessionEnd m =>
      [("session_id", .str m.sessionId), ("total_audio_seconds", .num m.totalAudioSeconds),
        ("total_speech_duration", .num m.totalSpeechDuration), ("transcript", .str m.transcript),
        ("segments", .arr (m.segments.map fun s => .obj s.toDict))] ++
        Dict.optional "audio_uri" (m.audioUri.map .str) ++
        Dict.optional "transcript_uri" (m.transcriptUri.map .str)
  | error m =>
      [("code", .str m.code), ("message", .str m.message), ("recoverable", .bool m.recoverable)]
  | processingLagWarning m =>
      [("code", .str "processing_lag"), ("message", .str m.message),
        ("lag_seconds", .num m.lagSeconds),
        ("warning_threshold_seconds", .num m.warningThresholdSeconds),
        ("hard_threshold_seconds", .num m.hardThresholdSeconds)]
  | sessionTerminated m =>
      [("session_id", .str m.sessionId), ("reason", .str m.reason),
        ("recoverable", .bool m.recoverable)] ++
        Dict.optional "last_transcript_offset_ms"
          (m.lastTranscriptOffsetMs.map fun offset => .num offset) ++
        Dict.optional "recovery_hint" (m.recoveryHint.map fun hint => .obj hint.toDict)

def toDict (message : ServerMessage) : Config := ("type", .str message.type) :: message.body

end ServerMessage

end Dalston.Realtime
