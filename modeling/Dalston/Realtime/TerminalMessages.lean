import Dalston.Foundation.Actions
import Dalston.Realtime.LagAccounting

/-!
# The messages that end a session

The message handler, the lag monitor and the streaming decoder of a session send on
one connection. A message is on its way when the send is called; the task that sends
it may then wait, and the others go on. The handler ends a session with one message,
an evaluation of the lag budget with another.

## Implementation notes

An action is what a task does from one point where it can wait to the next. What the
handler finds in the audio is left open: any transcript, voice activity and error
messages may come of it. The accounts of the lag and the flags of the session are
those of `LagSession`.
-/

namespace Dalston.Realtime

inductive MessageKind
  | sessionBegin
  | transcript
  | vad
  | lagWarning
  | error
  | sessionEnd
  | sessionTerminated
  deriving DecidableEq

def MessageKind.terminal : MessageKind → Bool
  | sessionEnd | sessionTerminated => true
  | _ => false

/-- Messages that still go out once the session was terminated. -/
def MessageKind.exempt : MessageKind → Bool
  | error | sessionTerminated => true
  | _ => false

/-- Where the message handler stands. -/
inductive HandlerPoint
  | receiving
  | handling
  /-- The rest of the audio is transcribed, after an end message or, if final, on the way out. -/
  | ending (final : Bool)
  /-- The send of the end message has been called and has not returned. -/
  | endSent (final : Bool)
  /-- The message loop has been left. -/
  | leaving
  /-- The streaming decoder has been stopped. -/
  | drained
  | returned
  deriving DecidableEq

/-- Where an evaluation of the lag budget can wait. -/
inductive EvaluationPoint
  | warned
  | erroring
  | terminating
  deriving DecidableEq

deriving instance DecidableEq for AudioBuffer, Activity, Evaluation, LagSession

/-- The evaluation that holds the lock. -/
structure Evaluating where
  evaluation : Evaluation
  point : EvaluationPoint
  deriving DecidableEq

structure HandlerSession where
  streaming : Bool
  lag : LagSession
  handler : HandlerPoint
  monitoring : Bool
  decoding : Bool
  closeRequested : Bool
  evaluating : Option Evaluating
  sent : List MessageKind
  failed : Bool

namespace LagSession

variable (config : AudioConfig)

/-- A warning is due. -/
def Warns (lag now : Rat) (s : LagSession) : Prop :=
  config.lagWarningSeconds ≤ lag ∧
    ∀ last ∈ s.lastLagWarningAt, LAG_WARNING_RATE_LIMIT_SECONDS ≤ now - last

instance (lag now : Rat) (s : LagSession) : Decidable (s.Warns config lag now) := by
  unfold Warns
  infer_instance

/-- The lag has been above the hard limit for the grace window. -/
def Exceeds (lag now : Rat) (s : LagSession) : Prop :=
  ¬ lag < config.lagHardSeconds ∧
    ∃ since ∈ s.lagHardExceededSince, ¬ now - since < config.lagHardGraceSeconds

end LagSession

namespace HandlerSession

/-- Send a message; the connection takes it or fails. -/
def send (message : MessageKind) (ok : Bool) (s : HandlerSession) : HandlerSession :=
  if s.lag.lagTerminated && !message.exempt then s
  else if ok then { s with sent := s.sent ++ [message] }
  else { s with failed := true }

/-- A session whose begin message has been sent. -/
def start (streaming ok : Bool) : HandlerSession :=
  HandlerSession.send .sessionBegin ok {
    streaming
    lag := .fresh
    handler := .receiving
    monitoring := true
    decoding := streaming
    closeRequested := false
    evaluating := none
    sent := []
    failed := false }

def goTo (handler : HandlerPoint) (s : HandlerSession) : HandlerSession := { s with handler }

def withLag (lag : LagSession) (s : HandlerSession) : HandlerSession := { s with lag }

/-- The evaluation at hand is that of the handler, which waits for it. -/
def Busy (s : HandlerSession) : Prop :=
  ∃ current ∈ s.evaluating, current.evaluation.byHandler = true

instance (s : HandlerSession) : Decidable s.Busy := by
  unfold Busy
  infer_instance

variable (config : AudioConfig)

/-- The last part of an evaluation; termination begins with an error message. -/
def enforce (evaluation : Evaluation) (ok : Bool) (s : HandlerSession) : HandlerSession :=
  let lag := s.lag.enforceHardLimit config evaluation.lag evaluation.now
  if !s.lag.ended && lag.ended then
    HandlerSession.send .error ok
      { s with lag, evaluating := some { evaluation, point := .erroring } }
  else { s with lag, evaluating := none }

/-- An evaluation takes the lock, reads the lag and may wait in the send of a warning. -/
def evaluate (byHandler : Bool) (now : Rat) (ok : Bool) (s : HandlerSession) : HandlerSession :=
  let evaluation := { byHandler, lag := s.lag.lagSeconds, now }
  if s.lag.Warns config evaluation.lag now then
    { s.send .lagWarning ok with
        lag := s.lag.warnOfLag config evaluation.lag now
        evaluating := some { evaluation, point := .warned } }
  else s.enforce config evaluation ok

def receiveEnd (s : HandlerSession) : HandlerSession :=
  if s.lag.ended then s.goTo .handling
  else if s.streaming then { s with closeRequested := true, handler := .handling }
  else s.goTo (.ending false)

/-- The loop is left once the session has ended or is to be closed. -/
def finishMessage (s : HandlerSession) : HandlerSession :=
  s.goTo (if s.lag.ended || s.closeRequested then .leaving else .receiving)

/-- An exception in the loop is reported unless the session was terminated. -/
def failLoop (ok : Bool) (s : HandlerSession) : HandlerSession :=
  (if s.lag.lagTerminated then s else s.send .error ok).goTo .leaving

def endDone (final : Bool) (s : HandlerSession) : HandlerSession :=
  (s.withLag { s.lag with ended := true }).goTo (if final then .returned else .leaving)

/-- The decoder is stopped, and what it had found is sent. -/
def stopDecoding (flush : Option Bool) (s : HandlerSession) : HandlerSession :=
  let s := { s with decoding := false, handler := HandlerPoint.drained }
  match flush with
  | some ok => s.send .transcript ok
  | none => s

/-- The monitor is cancelled wherever it waits. -/
def stopMonitor (s : HandlerSession) : HandlerSession :=
  { s with
    monitoring := false
    evaluating := none
    handler := if s.lag.ended then .returned else .ending true }

end HandlerSession

inductive SessionAction
  | receive
  | receiveEnd
  | received (bytes : Nat)
  | processed (seconds : Rat)
  | discarded (seconds : Rat)
  | report (message : MessageKind) (ok : Bool)
  | decode (ok : Bool)
  | evaluate (byHandler : Bool) (now : Rat) (ok : Bool)
  | enforce (ok : Bool)
  | terminate (ok : Bool)
  | closed
  | finishMessage
  | leave
  | raised (ok : Bool)
  | sendEnd (ok : Bool)
  | endDone
  | stopDecoding (flush : Option Bool)
  | stopMonitor
  | exitMonitor

/-- A task performs an action. -/
inductive SessionStep (config : AudioConfig) :
    HandlerSession → SessionAction → HandlerSession → Prop
  /-- A message arrives that is not an end message. -/
  | receive {s : HandlerSession} :
      s.handler = .receiving → SessionStep config s .receive (s.goTo .handling)
  | receiveEnd {s : HandlerSession} :
      s.handler = .receiving → SessionStep config s .receiveEnd s.receiveEnd
  | received {s : HandlerSession} (bytes : Nat) :
      s.handler = .handling → ¬ s.Busy →
      SessionStep config s (.received bytes)
        (s.withLag (s.lag.recordReceivedAudio config bytes))
  | processed {s : HandlerSession} (seconds : Rat) :
      s.handler = .handling → ¬ s.Busy →
      SessionStep config s (.processed seconds)
        (s.withLag (s.lag.recordProcessedAudio seconds))
  | discarded {s : HandlerSession} (seconds : Rat) :
      s.handler = .handling → ¬ s.Busy →
      SessionStep config s (.discarded seconds)
        (s.withLag (s.lag.recordDiscardedAudio seconds))
  | report {s : HandlerSession} (message : MessageKind) (ok : Bool) :
      (s.handler = .handling ∧ ¬ s.Busy) ∨ (∃ final, s.handler = .ending final) →
      message ∈ [MessageKind.transcript, .vad, .error] →
      SessionStep config s (.report message ok) (s.send message ok)
  /-- The streaming decoder sends a partial transcript. -/
  | decode {s : HandlerSession} (ok : Bool) :
      s.decoding = true → s.lag.ended = false →
      SessionStep config s (.decode ok) (s.send .transcript ok)
  | evaluate {s : HandlerSession} (byHandler : Bool) (now : Rat) (ok : Bool) :
      s.evaluating = none → s.lag.ended = false →
      (if byHandler then s.handler = .handling else s.monitoring = true) →
      SessionStep config s (.evaluate byHandler now ok) (s.evaluate config byHandler now ok)
  | enforce {s : HandlerSession} {evaluation : Evaluation} (ok : Bool) :
      s.evaluating = some { evaluation, point := .warned } →
      SessionStep config s (.enforce ok) (s.enforce config evaluation ok)
  | terminate {s : HandlerSession} {evaluation : Evaluation} (ok : Bool) :
      s.evaluating = some { evaluation, point := .erroring } →
      SessionStep config s (.terminate ok)
        (HandlerSession.send .sessionTerminated ok
          { s with evaluating := some { evaluation, point := .terminating } })
  /-- The connection has been closed and the lock is given back. -/
  | closed {s : HandlerSession} {evaluation : Evaluation} :
      s.evaluating = some { evaluation, point := .terminating } →
      SessionStep config s .closed { s with evaluating := none }
  | finishMessage {s : HandlerSession} :
      s.handler = .handling → ¬ s.Busy →
      SessionStep config s .finishMessage s.finishMessage
  /-- The client has closed the connection. -/
  | leave {s : HandlerSession} :
      s.handler = .receiving → SessionStep config s .leave (s.goTo .leaving)
  | raised {s : HandlerSession} (ok : Bool) :
      s.handler = .receiving ∨ (s.handler = .handling ∧ ¬ s.Busy) →
      SessionStep config s (.raised ok) (s.failLoop ok)
  | sendEnd {s : HandlerSession} {final : Bool} (ok : Bool) :
      s.handler = .ending final →
      SessionStep config s (.sendEnd ok) ((s.send .sessionEnd ok).goTo (.endSent final))
  | endDone {s : HandlerSession} {final : Bool} :
      s.handler = .endSent final → SessionStep config s .endDone (s.endDone final)
  | stopDecoding {s : HandlerSession} (flush : Option Bool) :
      s.handler = .leaving → (flush.isSome = true → s.streaming = true) →
      SessionStep config s (.stopDecoding flush) (s.stopDecoding flush)
  | stopMonitor {s : HandlerSession} :
      s.handler = .drained → SessionStep config s .stopMonitor s.stopMonitor
  | exitMonitor {s : HandlerSession} :
      s.monitoring = true → s.lag.ended = true →
      (∀ current ∈ s.evaluating, current.evaluation.byHandler = true) →
      SessionStep config s .exitMonitor { s with monitoring := false }

/-- The sessions that are reached by steps that satisfy a condition. -/
abbrev SessionRun (config : AudioConfig) (ok : HandlerSession → SessionAction → Prop) :
    HandlerSession → HandlerSession → Prop :=
  Foundation.ActionRun (SessionStep config) ok

/-- A session ends with one message of its own, and nothing it finds is sent after that. -/
structure TerminalOnce (s : HandlerSession) : Prop where
  atMostOne : (s.sent.filter (·.terminal)).length ≤ 1
  exactlyOne : s.handler = .returned → s.failed = false →
    (s.sent.filter (·.terminal)).length = 1
  nothingAfter : ∀ before last after, s.sent = before ++ last :: after → last.terminal = true →
    ∀ message ∈ after, message ∉ [MessageKind.transcript, .vad, .lagWarning]

/-- The monitor leaves the handler alone: while the handler waits in the send of the end
message no evaluation comes to a warning or to termination, and the monitor is not cancelled
between the two messages of a termination. -/
def Undisturbed (config : AudioConfig) (s : HandlerSession) : SessionAction → Prop
  | .evaluate _ now _ => s.handler = .endSent false →
      ¬ s.lag.Warns config s.lag.lagSeconds now ∧ ¬ s.lag.Exceeds config s.lag.lagSeconds now
  | .enforce _ => s.handler = .endSent false → ∀ current ∈ s.evaluating,
      ¬ s.lag.Exceeds config current.evaluation.lag current.evaluation.now
  | .stopMonitor => ∀ current ∈ s.evaluating, current.point ≠ .erroring
  | _ => True

end Dalston.Realtime
