import Mathlib

/-!
# Lag accounting of a realtime session

A session adds up the seconds of audio it receives, processes and discards; what
is left is its lag. Received seconds come from the bytes of a message, the others
from samples in the buffer. The message handler evaluates the lag budget after an
audio message, after each chunk and after a control message, a monitor task at any
time. An evaluation reads the lag under a lock and decides after an await.

## Implementation notes

Seconds are rational numbers. The resampler returns samples in proportion to the
two rates, also where the quotient is not a whole number. The contents of the
audio are left out, as is what processing a chunk does with them.
-/

namespace Dalston.Realtime

inductive Encoding
  | pcmS16le
  | pcmF32le
  | mulaw
  | alaw

def Encoding.bytesPerSample : Encoding → Nat
  | pcmS16le => 2
  | pcmF32le => 4
  | mulaw | alaw => 1

theorem Encoding.bytesPerSample_pos (encoding : Encoding) : 0 < encoding.bytesPerSample := by
  cases encoding <;> decide

def MIN_SAMPLE_RATE : Nat := 8000

def MAX_SAMPLE_RATE : Nat := 48000

def CHUNK_DURATION_MS : Nat := 100

/-- The parameters of a connection that the server accepts. -/
structure AudioConfig where
  encoding : Encoding
  clientSampleRate : Option Nat
  sampleRate : Nat
  channels : Nat
  lagWarningSeconds : Rat
  lagHardSeconds : Rat
  lagHardGraceSeconds : Rat
  clientSampleRate_range : ∀ rate ∈ clientSampleRate,
    MIN_SAMPLE_RATE ≤ rate ∧ rate ≤ MAX_SAMPLE_RATE
  sampleRate_range : MIN_SAMPLE_RATE ≤ sampleRate ∧ sampleRate ≤ MAX_SAMPLE_RATE
  channels_range : 1 ≤ channels ∧ channels ≤ 2
  lagWarningSeconds_range : 1 / 1000 ≤ lagWarningSeconds
  lagHardGraceSeconds_range : 1 / 1000 ≤ lagHardGraceSeconds
  lagWarningSeconds_lt : lagWarningSeconds < lagHardSeconds

namespace AudioConfig

variable (config : AudioConfig)

/-- `client_sample_rate or sample_rate`. -/
def clientRate : Nat := config.clientSampleRate.getD config.sampleRate

/-- The samples of a chunk across all channels. -/
def chunkSamples : Nat := config.sampleRate * CHUNK_DURATION_MS / 1000 * config.channels

/-- Samples in a second across all channels. -/
def samplesPerSecond : Rat := config.sampleRate * config.channels

def samplesToSeconds (samples : Rat) : Rat :=
  if samples ≤ 0 then 0 else samples / config.samplesPerSecond

def audioBytesToSeconds (bytes : Nat) : Rat :=
  if bytes = 0 then 0 else bytes / (config.encoding.bytesPerSample * config.samplesPerSecond)

/-- The length of a decoded message; a part of a sample cannot be decoded. -/
def decodeAudio (bytes : Nat) : Option Nat :=
  if bytes % config.encoding.bytesPerSample = 0 then
    some (bytes / config.encoding.bytesPerSample)
  else none

def resampleIfNeeded (samples : Nat) : Rat :=
  if config.clientRate = config.sampleRate then samples
  else samples * config.sampleRate / config.clientRate

end AudioConfig

/-- The length of the buffer and of everything added to it, in samples. -/
structure AudioBuffer where
  length : Rat
  totalSamples : Rat

namespace AudioBuffer

def empty : AudioBuffer := ⟨0, 0⟩

variable (config : AudioConfig)

def add (buffer : AudioBuffer) (bytes : Nat) : Option AudioBuffer :=
  (config.decodeAudio bytes).map fun samples =>
    ⟨buffer.length + config.resampleIfNeeded samples,
      buffer.totalSamples + config.resampleIfNeeded samples⟩

def getChunk (buffer : AudioBuffer) : Option (Rat × AudioBuffer) :=
  if buffer.length < config.chunkSamples then none
  else some (config.chunkSamples, { buffer with length := buffer.length - config.chunkSamples })

def flush (buffer : AudioBuffer) : Option Rat × AudioBuffer :=
  if buffer.length = 0 then (none, buffer)
  else (some buffer.length, { buffer with length := 0 })

def bufferedDuration (buffer : AudioBuffer) : Rat := buffer.length / config.samplesPerSecond

def clear (buffer : AudioBuffer) : Rat × AudioBuffer :=
  (buffer.bufferedDuration config, { buffer with length := 0 })

end AudioBuffer

/-- Where the message handler is. -/
inductive Activity
  /-- Waiting for the next message. -/
  | waiting
  /-- Audio was received, or a chunk was processed; the lag is to be evaluated. -/
  | reporting
  /-- At the head of the chunk loop. -/
  | extracting
  | chunk (samples : Rat)
  | flushing (samples : Rat)
  /-- A control message was handled; the lag is to be evaluated. -/
  | concluding
  /-- The message loop has been left with this much audio lost in an exception. -/
  | finished (lost : Rat)

/-- Audio that has left the buffer without being accounted for yet. -/
def Activity.inFlight : Activity → Rat
  | chunk samples | flushing samples | finished samples => samples
  | _ => 0

/-- Where the handler goes on after an evaluation. -/
def Activity.next : Activity → Activity
  | reporting => extracting
  | concluding => waiting
  | activity => activity

/-- An evaluation that holds the lock. -/
structure Evaluation where
  byHandler : Bool
  lag : Rat
  now : Rat

structure LagSession where
  buffer : AudioBuffer
  receivedSeconds : Rat
  processedSeconds : Rat
  discardedSeconds : Rat
  lagHardExceededSince : Option Rat
  lastLagWarningAt : Option Rat
  ended : Bool
  lagTerminated : Bool
  activity : Activity
  evaluation : Option Evaluation

namespace LagSession

def fresh : LagSession where
  buffer := .empty
  receivedSeconds := 0
  processedSeconds := 0
  discardedSeconds := 0
  lagHardExceededSince := none
  lastLagWarningAt := none
  ended := false
  lagTerminated := false
  activity := .waiting
  evaluation := none

/-- `received - processed - discarded`. -/
def outstanding (s : LagSession) : Rat :=
  s.receivedSeconds - s.processedSeconds - s.discardedSeconds

def lagSeconds (s : LagSession) : Rat := max 0 s.outstanding

variable (config : AudioConfig)

def recordReceivedAudio (bytes : Nat) (s : LagSession) : LagSession :=
  { s with receivedSeconds := s.receivedSeconds + config.audioBytesToSeconds bytes }

def recordProcessedAudio (seconds : Rat) (s : LagSession) : LagSession :=
  if 0 < seconds then { s with processedSeconds := s.processedSeconds + seconds } else s

def recordDiscardedAudio (seconds : Rat) (s : LagSession) : LagSession :=
  if 0 < seconds then { s with discardedSeconds := s.discardedSeconds + seconds } else s

def terminateForLag (s : LagSession) : LagSession :=
  if s.ended then s else { s with lagTerminated := true, ended := true }

def LAG_WARNING_RATE_LIMIT_SECONDS : Rat := 1

/-- Send a warning unless one was sent less than a second ago. -/
def warnOfLag (lag now : Rat) (s : LagSession) : LagSession :=
  if config.lagWarningSeconds ≤ lag ∧
      ∀ last ∈ s.lastLagWarningAt, LAG_WARNING_RATE_LIMIT_SECONDS ≤ now - last then
    { s with lastLagWarningAt := some now }
  else s

/-- The hard limit; a lag that stays above it for the grace window ends the session. -/
def enforceHardLimit (lag now : Rat) (s : LagSession) : LagSession :=
  if lag < config.lagHardSeconds then { s with lagHardExceededSince := none }
  else match s.lagHardExceededSince with
    | none => { s with lagHardExceededSince := some now }
    | some since => if now - since < config.lagHardGraceSeconds then s else s.terminateForLag

def evaluateLagBudget (evaluation : Evaluation) (s : LagSession) : LagSession :=
  (s.warnOfLag config evaluation.lag evaluation.now).enforceHardLimit config evaluation.lag
    evaluation.now

def goTo (activity : Activity) (s : LagSession) : LagSession := { s with activity }

def withBuffer (buffer : AudioBuffer) (s : LagSession) : LagSession := { s with buffer }

def receive (buffer : AudioBuffer) (bytes : Nat) (s : LagSession) : LagSession :=
  ((s.withBuffer buffer).recordReceivedAudio config bytes).goTo .reporting

/-- The part of a flush that takes the audio out of the buffer. -/
def flushBuffer (s : LagSession) : LagSession :=
  let flushed := s.buffer.flush
  let s := s.withBuffer flushed.2
  match flushed.1 with
  | none => s.goTo .concluding
  | some remaining =>
      let duration := config.samplesToSeconds remaining
      if 1 / 10 < duration then s.goTo (.flushing remaining)
      else (s.recordDiscardedAudio duration).goTo .concluding

def clearBuffer (s : LagSession) : LagSession :=
  let cleared := s.buffer.clear config
  ((s.withBuffer cleared.2).recordDiscardedAudio cleared.1).goTo .concluding

/-- An evaluation begins with the lag it reads. -/
def readLag (byHandler : Bool) (now : Rat) (s : LagSession) : LagSession :=
  { s with evaluation := some ⟨byHandler, s.lagSeconds, now⟩ }

/-- An evaluation decides and gives the lock back. -/
def conclude (evaluation : Evaluation) (s : LagSession) : LagSession :=
  let s := s.evaluateLagBudget config evaluation
  { s with
      evaluation := none
      activity := if evaluation.byHandler then s.activity.next else s.activity }

end LagSession

/-- A step of the message handler or of the lag monitor. -/
inductive LagStep (config : AudioConfig) : LagSession → LagSession → Prop
  | audio {s : LagSession} {buffer : AudioBuffer} (bytes : Nat) :
      s.activity = .waiting → s.ended = false → s.buffer.add config bytes = some buffer →
      LagStep config s (s.receive config buffer bytes)
  | undecodable {s : LagSession} (bytes : Nat) :
      s.activity = .waiting → s.ended = false → s.buffer.add config bytes = none →
      LagStep config s (s.goTo (.finished 0))
  | flush {s : LagSession} :
      s.activity = .waiting → s.ended = false → LagStep config s (s.flushBuffer config)
  | clear {s : LagSession} :
      s.activity = .waiting → s.ended = false → LagStep config s (s.clearBuffer config)
  /-- A configuration update. -/
  | update {s : LagSession} :
      s.activity = .waiting → s.ended = false → LagStep config s (s.goTo .concluding)
  /-- An end message, or the end of the connection. -/
  | close {s : LagSession} : s.activity = .waiting → LagStep config s (s.goTo (.finished 0))
  | extract {s : LagSession} {chunk : Rat} {rest : AudioBuffer} :
      s.activity = .extracting → s.ended = false → s.buffer.getChunk config = some (chunk, rest) →
      LagStep config s ((s.withBuffer rest).goTo (.chunk chunk))
  | drained {s : LagSession} :
      s.activity = .extracting → s.ended = false → s.buffer.getChunk config = none →
      LagStep config s (s.goTo .waiting)
  | interrupted {s : LagSession} :
      s.activity = .extracting → s.ended = true → LagStep config s (s.goTo (.finished 0))
  | processed {s : LagSession} {chunk : Rat} :
      s.activity = .chunk chunk →
      LagStep config s ((s.recordProcessedAudio (config.samplesToSeconds chunk)).goTo .reporting)
  | flushed {s : LagSession} {samples : Rat} :
      s.activity = .flushing samples →
      LagStep config s
        ((s.recordProcessedAudio (config.samplesToSeconds samples)).goTo .concluding)
  /-- Processing raises. -/
  | fail {s : LagSession} {samples : Rat} :
      s.activity = .chunk samples ∨ s.activity = .flushing samples →
      LagStep config s (s.goTo (.finished samples))
  | read {s : LagSession} (byHandler : Bool) (now : Rat) :
      s.evaluation = none → s.ended = false →
      (byHandler = true → s.activity = .reporting ∨ s.activity = .concluding) →
      LagStep config s (s.readLag byHandler now)
  | decide {s : LagSession} {evaluation : Evaluation} :
      s.evaluation = some evaluation → LagStep config s (s.conclude config evaluation)
  /-- The session has ended, and an evaluation returns at once. -/
  | skip {s : LagSession} :
      s.activity = .reporting ∨ s.activity = .concluding → s.ended = true →
      (∀ evaluation ∈ s.evaluation, evaluation.byHandler = false) →
      LagStep config s (s.goTo s.activity.next)

/-- The audio that is neither processed nor discarded, in samples. -/
def LagSession.unaccounted (s : LagSession) : Rat := s.buffer.length + s.activity.inFlight

/-- Every full chunk that was received has been processed. -/
def LagSession.Drained (config : AudioConfig) (s : LagSession) : Prop :=
  s.unaccounted < config.chunkSamples

/-- A step in which the lag is read only when no full chunk is outstanding. -/
def CalmStep (config : AudioConfig) (s s' : LagSession) : Prop :=
  LagStep config s s' ∧ (s.evaluation = none → s'.evaluation ≠ none → s.Drained config)

def Reachable (step : LagSession → LagSession → Prop) (s : LagSession) : Prop :=
  Relation.ReflTransGen step .fresh s

/-- The lag of a session is the audio in its buffer, less than a chunk once every full chunk
is processed, and reading it then never ends the session. -/
structure LagAccounted (config : AudioConfig) : Prop where
  balance : ∀ s, Reachable (LagStep config) s → s.activity = .waiting →
    s.outstanding = s.buffer.bufferedDuration config
  small : ∀ s, Reachable (LagStep config) s → s.activity = .waiting ∨ s.Drained config →
    s.lagSeconds < config.samplesToSeconds config.chunkSamples
  survives : ∀ s, Reachable (CalmStep config) s → s.lagTerminated = false

end Dalston.Realtime
