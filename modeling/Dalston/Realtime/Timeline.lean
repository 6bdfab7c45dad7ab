import Dalston.Realtime.Assembler
import Dalston.Realtime.VadProcessor

/-!
# What a realtime session transcribes

The audio of a session reaches its handler in chunks. With voice activity
detection the handler transcribes the utterances that the detector cuts out,
without it the audio of a fixed duration, and with a streaming decoder it collects
the words that the decoder yields. Every transcript with a text goes to the
assembler.

## Implementation notes

A chunk is the stretch of the received audio that it holds. Whether a chunk is
speech and what a transcription returns are part of the events of the session. A
reply is missing when the transcription raises. The entries of a session record
what its segments stand for; the handler does not read them. Positions are exact; the
sums of the detector and the duration held against the limit are rounded to doubles.
-/

namespace Dalston.Realtime

open Model

/-- A stretch of the received audio. -/
structure Chunk where
  start : Rat
  duration : Rat

def Chunk.stop (chunk : Chunk) : Rat := chunk.start + chunk.duration

def audioDuration (audio : List Chunk) : Rat := (audio.map (·.duration)).sum

/-- Where the audio begins in the received audio. -/
def audioStart (audio : List Chunk) : Rat := (audio.head?.map (·.start)).getD 0

/-- Where the audio ends in the received audio. -/
def audioStop (audio : List Chunk) : Rat := (audio.getLast?.map Chunk.stop).getD 0

/-- What a segment stands for. -/
inductive Entry
  /-- A transcribed piece of the audio. -/
  | piece (audio : List Chunk) (transcript : Transcript)
  /-- The words of a streaming decoder. -/
  | streamed (words : List Word)

structure TimelineConfig where
  /-- The duration of a chunk in seconds. -/
  chunkSeconds : Rat
  channels : Nat
  streaming : Bool
  maxUtteranceDuration : Rat
  chunkSeconds_pos : 0 < chunkSeconds

/-- The duration of a chunk by the detector's clock, which counts the samples of every channel. -/
def TimelineConfig.detectorDuration (config : TimelineConfig) (chunk : Chunk) : Rat :=
  roundDouble (chunk.duration * config.channels)

structure TimelineSession where
  /-- The audio that has left the audio buffer, in seconds. -/
  position : Rat
  vad : Option (Vad.VADProcessor Chunk)
  /-- The accumulated audio of a session without voice activity detection. -/
  speechAudioBuffer : List Chunk
  textParts : List String
  words : List Word
  assembler : TranscriptAssembler
  entries : List Entry

namespace TimelineSession

/-- A new session, with the detector if voice activity detection is enabled. -/
def fresh (vad : Option Vad.VADConfig) : TimelineSession where
  position := 0
  vad := vad.map fun config => { config := config }
  speechAudioBuffer := []
  textParts := []
  words := []
  assembler := .empty
  entries := []

def addEntry (entry : Entry) (transcript : Transcript) (duration : Rat) (s : TimelineSession) :
    TimelineSession :=
  { s with
      assembler := s.assembler.addTranscript transcript duration
      entries := s.entries ++ [entry] }

def transcribeAndSend (audio : List Chunk) (reply : Option Transcript) (s : TimelineSession) :
    TimelineSession :=
  match reply with
  | none => s
  | some transcript =>
      if transcript.text = "" then s
      else s.addEntry (.piece audio transcript) transcript (audioDuration audio)

/-- Transcribe a piece unless it is empty. -/
def transcribeRemaining (audio : List Chunk) (reply : Option Transcript) (s : TimelineSession) :
    TimelineSession :=
  if audio.isEmpty then s else s.transcribeAndSend audio reply

def flushStreamingFinal (s : TimelineSession) : TimelineSession :=
  if s.textParts.isEmpty then s
  else
    { s.addEntry (.streamed s.words) (streamingTranscript s.textParts s.words)
        (lastEnd s.words) with
      textParts := []
      words := [] }

/-- The loop that collects the results of the streaming decoder. -/
def decoded (result : Transcript) (s : TimelineSession) : TimelineSession :=
  if result.text ≠ "" ∧ extractWords result ≠ [] then
    { s with
        textParts := s.textParts ++ [result.text]
        words := s.words ++ extractWords result }
  else s

variable (config : TimelineConfig)

def processChunkStreaming (vad : Vad.VADProcessor Chunk) (chunk : Chunk) (isSpeech : Bool)
    (s : TimelineSession) : TimelineSession :=
  let result := vad.advance chunk (config.detectorDuration chunk) isSpeech
  let s := { s with vad := some result.1 }
  match result.2.event with
  | some .speechEnd => s.flushStreamingFinal
  | _ => s

/-- End the utterance when it has become too long. -/
def checkMaxUtteranceDuration (vad : Vad.VADProcessor Chunk) (reply : Option Transcript)
    (s : TimelineSession) : TimelineSession :=
  if config.maxUtteranceDuration ≤ roundDouble (audioDuration vad.speechBuffer) then
    let forced := vad.forceEndpoint
    { s with vad := some forced.1 }.transcribeRemaining (forced.2.getD []) reply
  else { s with vad := some vad }

def processChunkVad (vad : Vad.VADProcessor Chunk) (chunk : Chunk) (isSpeech : Bool)
    (reply : Option Transcript) (s : TimelineSession) : TimelineSession :=
  let result := vad.advance chunk (config.detectorDuration chunk) isSpeech
  match result.2.event with
  | some .speechEnd =>
      { s with vad := some result.1 }.transcribeRemaining (result.2.speechAudio.getD []) reply
  | _ =>
      if result.1.state = .speech ∧ 0 < config.maxUtteranceDuration then
        s.checkMaxUtteranceDuration config result.1 reply
      else { s with vad := some result.1 }

def processChunkNoVad (chunk : Chunk) (reply : Option Transcript) (s : TimelineSession) :
    TimelineSession :=
  let audio := s.speechAudioBuffer ++ [chunk]
  if 0 < config.maxUtteranceDuration ∧
      config.maxUtteranceDuration ≤ roundDouble (audioDuration audio) then
    { s with speechAudioBuffer := [] }.transcribeAndSend audio reply
  else { s with speechAudioBuffer := audio }

def processChunk (chunk : Chunk) (isSpeech : Bool) (reply : Option Transcript)
    (s : TimelineSession) : TimelineSession :=
  match s.vad with
  | some vad =>
      if config.streaming then s.processChunkStreaming config vad chunk isSpeech
      else s.processChunkVad config vad chunk isSpeech reply
  | none => if config.streaming then s else s.processChunkNoVad config chunk reply

/-- The next chunk of the audio buffer. -/
def takeChunk (isSpeech : Bool) (reply : Option Transcript) (s : TimelineSession) :
    TimelineSession :=
  { s with position := s.position + config.chunkSeconds }.processChunk config
    ⟨s.position, config.chunkSeconds⟩ isSpeech reply

/-- The part of a flush that empties the detector. -/
def flushVad (reply : Option Transcript) (s : TimelineSession) : TimelineSession :=
  match s.vad with
  | none => s
  | some vad =>
      let flushed := vad.flush
      let s := { s with vad := some flushed.1 }
      if config.streaming then s else s.transcribeRemaining (flushed.2.getD []) reply

/-- The part of a flush that empties the audio buffer. -/
def flushBuffer (remaining : Rat) (reply : Option Transcript) (s : TimelineSession) :
    TimelineSession :=
  let piece : Chunk := ⟨s.position, remaining⟩
  let s := { s with position := s.position + remaining }
  if 1 / 10 < remaining ∧ config.streaming = false then s.transcribeAndSend [piece] reply else s

def flush (remaining : Rat) (speechReply reply : Option Transcript) (s : TimelineSession) :
    TimelineSession :=
  let s := if config.streaming then s.flushStreamingFinal else s
  (s.flushVad config speechReply).flushBuffer config remaining reply

/-- The detector keeps its lookback when its speech is discarded. -/
def clear (remaining : Rat) (s : TimelineSession) : TimelineSession :=
  { s with
      vad := s.vad.map (·.clear)
      position := s.position + remaining
      speechAudioBuffer := []
      textParts := []
      words := [] }

def update (vadConfig : Vad.VADConfig) (s : TimelineSession) : TimelineSession :=
  { s with vad := s.vad.map fun vad => { vad with config := vadConfig } }

/-- The transcription at the end of the session. -/
def sendSessionEnd (reply : Option Transcript) (s : TimelineSession) : TimelineSession :=
  let s := if config.streaming then s.flushStreamingFinal else s
  match s.vad with
  | some vad =>
      let flushed := vad.flush
      { s with vad := some flushed.1 }.transcribeRemaining (flushed.2.getD []) reply
  | none =>
      { s with speechAudioBuffer := [] }.transcribeRemaining s.speechAudioBuffer reply

end TimelineSession

/-- What happens in a session. -/
inductive TimelineEvent
  | chunk (isSpeech : Bool) (reply : Option Transcript)
  /-- A flush, with the duration of the audio in the buffer. -/
  | flush (remaining : Rat) (speechReply reply : Option Transcript)
  | clear (remaining : Rat)
  | update (vadConfig : Vad.VADConfig)
  | decoded (result : Transcript)
  | sessionEnd (reply : Option Transcript)

def TimelineEvent.apply (config : TimelineConfig) (s : TimelineSession) :
    TimelineEvent → TimelineSession
  | chunk isSpeech reply => s.takeChunk config isSpeech reply
  | flush remaining speechReply reply => s.flush config remaining speechReply reply
  | clear remaining => s.clear remaining
  | update vadConfig => s.update vadConfig
  | decoded result => s.decoded result
  | sessionEnd reply => s.sendSessionEnd config reply

/-- The audio left in the buffer has no negative duration. -/
def TimelineEvent.Valid : TimelineEvent → Prop
  | flush remaining _ _ | clear remaining => 0 ≤ remaining
  | _ => True

/-- The session after a sequence of events. -/
def timeline (config : TimelineConfig) (vad : Option Vad.VADConfig) (events : List TimelineEvent) :
    TimelineSession :=
  events.foldl (TimelineEvent.apply config) (.fresh vad)

end Dalston.Realtime
