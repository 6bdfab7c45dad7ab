import Dalston.Foundation.Actions
import Dalston.Realtime.Sdk

/-!
# The realtime sessions of the Python SDK

An asynchronous session hands over the messages of a WebSocket to an iteration of
the application, and `close` reads from the same socket. A synchronous session reads
them in a loop of its own and dispatches them to callbacks.

## Implementation notes

A step is what a task does from one await to the next. The application runs one
iteration at a time and calls `close` once, of the synchronous session from outside
its callbacks. A closed connection still hands over what has arrived on it. The flag
`_connected`, which neither `close` nor an iteration under way reads, is left out.
-/

namespace Dalston.Realtime.Sdk

open Foundation Model

/-- The type that `_parse_message` gives a message. -/
def messageType (data : Config) : RealtimeMessageType :=
  let msgType := data.getD "type" (.str "")
  if msgType.equalsText "session.begin" then .sessionBegin
  else if msgType.equalsText "session.end" then .sessionEnd
  else if msgType.equalsText "transcript.partial" then .transcriptPartial
  else if msgType.equalsText "transcript.final" then .transcriptFinal
  else if msgType.equalsText "vad.speech_start" then .vadSpeechStart
  else if msgType.equalsText "vad.speech_end" then .vadSpeechEnd
  else .error

/-- A message on the WebSocket. -/
inductive Frame
  | binary
  | text (data : Config)

namespace Frame

/-- The last message that the server sends. -/
def terminal : Frame → Bool
  | binary => false
  | text data =>
      let msgType := data.getD "type" (.str "")
      msgType.equalsText "session.end" || msgType.equalsText "session.terminated"

/-- The parsed message, if it is of one of the types. -/
def parsed? (format : Json → String) (types : RealtimeMessageType → Bool) :
    Frame → Option (Except ParseError RealtimeMessage)
  | binary => none
  | text data => if types (messageType data) then some (parseMessage format data) else none

end Frame

/-- The parsed messages of some types, in order. -/
def messages (format : Json → String) (types : RealtimeMessageType → Bool) (frames : List Frame) :
    List (Except ParseError RealtimeMessage) :=
  frames.filterMap (Frame.parsed? format types)

def RealtimeMessageType.isFinal (type : RealtimeMessageType) : Bool := type = .transcriptFinal

def RealtimeMessageType.isEnd (type : RealtimeMessageType) : Bool := type = .sessionEnd

/-- The payload of the first session.end. -/
def statistics (format : Json → String) (frames : List Frame) :
    Option (Except ParseError RealtimeData) :=
  (messages format RealtimeMessageType.isEnd frames).head?.map (Except.map (·.data))

/-- The first text message, and what comes after it. -/
def nextText : List Frame → Option (Config × List Frame)
  | [] => none
  | .binary :: rest => nextText rest
  | .text data :: rest => some (data, rest)

section Frames

variable {format : Json → String} {types : RealtimeMessageType → Bool} {frames rest : List Frame}
  {data : Config}

theorem type_of_payload {A : Type} {payload : Except ParseError A} {type : RealtimeMessageType}
    {wrap : A → RealtimeData} {message : RealtimeMessage}
    (h : (do return ⟨type, wrap (← payload)⟩ : Except ParseError RealtimeMessage) = .ok message) :
    message.type = type := by
  cases payload with
  | error _ => cases h
  | ok value =>
      cases h
      rfl

theorem type_of_parseMessage {message : RealtimeMessage}
    (h : parseMessage format data = .ok message) : message.type = messageType data := by
  unfold parseMessage at h
  unfold messageType
  dsimp only at h ⊢
  split_ifs at h ⊢
  case pos => exact type_of_payload h
  case pos => exact type_of_payload h
  case pos => cases h; rfl
  case pos => exact type_of_payload h
  all_goals
    cases h
    rfl

@[simp] theorem messages_nil : messages format types [] = [] := rfl

@[simp] theorem messages_binary :
    messages format types (.binary :: rest) = messages format types rest := rfl

theorem messages_append :
    messages format types (frames ++ rest) =
      messages format types frames ++ messages format types rest :=
  List.filterMap_append

theorem messages_text : messages format types (.text data :: rest) =
    if types (messageType data) then parseMessage format data :: messages format types rest
    else messages format types rest := by
  have hparsed : Frame.parsed? format types (.text data) =
      if types (messageType data) then some (parseMessage format data) else none := rfl
  unfold messages
  rw [List.filterMap_cons, hparsed]
  split_ifs <;> rfl

theorem messages_text_of_type (h : types (messageType data) = true) :
    messages format types (.text data :: rest) =
      parseMessage format data :: messages format types rest := by
  rw [messages_text, if_pos h]

theorem messages_text_of_other (h : types (messageType data) = false) :
    messages format types (.text data :: rest) = messages format types rest := by
  rw [messages_text, h]
  rfl

theorem statistics_append :
    statistics format (frames ++ rest) = (statistics format frames).or (statistics format rest) := by
  unfold statistics
  rw [messages_append, List.head?_append]
  cases (messages format RealtimeMessageType.isEnd frames).head? <;> rfl

theorem statistics_of_messages_eq (h : messages format RealtimeMessageType.isEnd frames =
    messages format RealtimeMessageType.isEnd rest) :
    statistics format frames = statistics format rest := by
  unfold statistics
  rw [h]

theorem terminal_of_isEnd (h : (messageType data).isEnd = true) :
    (Frame.text data).terminal = true := by
  unfold messageType at h
  unfold Frame.terminal
  dsimp only at h ⊢
  split_ifs at h with h₁ h₂
  case pos => cases h
  case pos => simp [h₂]
  all_goals cases h

/-- Without a terminal message there are no statistics. -/
theorem statistics_eq_none (h : ∀ frame ∈ frames, frame.terminal = false) :
    statistics format frames = none := by
  induction frames with
  | nil => rfl
  | cons frame frames ih =>
      have hrest := ih fun frame hframe => h frame (List.mem_cons_of_mem _ hframe)
      cases frame with
      | binary => exact hrest
      | text data =>
          have hother : (messageType data).isEnd = false := by
            by_contra hend
            have hterminal := terminal_of_isEnd (Bool.not_eq_false _ ▸ hend)
            rw [h _ List.mem_cons_self] at hterminal
            cases hterminal
          rw [statistics_of_messages_eq (messages_text_of_other hother)]
          exact hrest

/-- Skipping binary messages skips no message of any type. -/
theorem messages_of_nextText (h : nextText frames = some (data, rest)) :
    messages format types frames = messages format types (.text data :: rest) := by
  induction frames with
  | nil => cases h
  | cons frame frames ih =>
      cases frame with
      | binary => exact ih h
      | text _ =>
          cases h
          rfl

theorem messages_of_no_nextText (h : nextText frames = none) : messages format types frames = [] := by
  induction frames with
  | nil => rfl
  | cons frame frames ih =>
      cases frame with
      | binary => exact ih h
      | text _ => cases h

theorem suffix_of_nextText (h : nextText frames = some (data, rest)) :
    .text data :: rest <:+ frames := by
  induction frames with
  | nil => cases h
  | cons frame frames ih =>
      cases frame with
      | binary => exact (ih h).trans (List.suffix_cons _ _)
      | text _ =>
          cases h
          exact List.suffix_rfl

end Frames

inductive Connection
  | open
  | closedByServer
  | closedByClient
  deriving DecidableEq

structure Wire where
  /-- What the server has sent, first message first. -/
  sent : List Frame
  /-- What has arrived and has not been read. -/
  inbox : List Frame
  connection : Connection

namespace Wire

def fresh : Wire := ⟨[], [], .open⟩

/-- The server sends a message, unless it has sent its last or has closed the connection. What it
sends to a client that has closed the connection is not received. -/
def arrive (w : Wire) (frame : Frame) : Wire :=
  if w.sent.any (·.terminal) then w
  else
    match w.connection with
    | .open => { w with sent := w.sent ++ [frame], inbox := w.inbox ++ [frame] }
    | .closedByServer => w
    | .closedByClient => { w with sent := w.sent ++ [frame] }

def serverCloses (w : Wire) : Wire :=
  if w.connection = .open then { w with connection := .closedByServer } else w

/-- `ws.close()`. -/
def close (w : Wire) : Wire :=
  if w.connection = .open then { w with connection := .closedByClient } else w

section Laws

variable {w : Wire} {frame : Frame}

/-- Nothing arrives any more. -/
def Final (w : Wire) : Prop := w.sent.any (·.terminal) = true ∨ w.connection = .closedByServer

/-- What is unread has been sent, and only the last of it can be terminal. -/
structure Sound (w : Wire) : Prop where
  last : ∀ frame ∈ w.inbox.dropLast, frame.terminal = false
  known : ∀ frame ∈ w.inbox, frame ∈ w.sent

theorem sound_fresh : fresh.Sound where
  last frame hframe := by cases hframe
  known frame hframe := by cases hframe

/-- A message is ignored, arrives before the last one, or is lost by a closed client. -/
theorem arrive_cases (w : Wire) (frame : Frame) :
    w.arrive frame = w ∨
      (∀ other ∈ w.sent, other.terminal = false) ∧
        (w.connection = .open ∧
            w.arrive frame = { w with sent := w.sent ++ [frame], inbox := w.inbox ++ [frame] } ∨
          w.connection = .closedByClient ∧ w.arrive frame = { w with sent := w.sent ++ [frame] }) := by
  unfold arrive
  split
  case isTrue => exact Or.inl rfl
  case isFalse hnone =>
    have hearlier : ∀ other ∈ w.sent, other.terminal = false := by simpa using hnone
    cases hconnection : w.connection with
    | «open» => exact Or.inr ⟨hearlier, Or.inl ⟨rfl, by simp⟩⟩
    | closedByServer => exact Or.inl rfl
    | closedByClient => exact Or.inr ⟨hearlier, Or.inr ⟨rfl, by simp⟩⟩

theorem Sound.arrive (h : w.Sound) (frame : Frame) : (w.arrive frame).Sound := by
  obtain heq | ⟨hearlier, ⟨-, heq⟩ | ⟨-, heq⟩⟩ := w.arrive_cases frame
  · rwa [heq]
  · rw [heq]
    constructor
    case last =>
      intro other hother
      rw [List.dropLast_concat] at hother
      exact hearlier other (h.known other hother)
    case known =>
      intro other hother
      obtain hother | hother := List.mem_append.mp hother
      · exact List.mem_append_left _ (h.known other hother)
      · exact List.mem_append_right _ hother
  · rw [heq]
    exact ⟨h.last, fun other hother => List.mem_append_left _ (h.known other hother)⟩

theorem Sound.close (h : w.Sound) : w.close.Sound := by
  unfold Wire.close
  split
  · exact ⟨h.last, h.known⟩
  · exact h

theorem Sound.read (h : w.Sound) {rest : List Frame} (hrest : rest <:+ w.inbox) :
    ({ w with inbox := rest } : Wire).Sound := by
  constructor
  case last =>
    intro frame hframe
    obtain ⟨front, hfront⟩ := hrest
    refine h.last frame ?_
    rw [← hfront, List.dropLast_append_of_ne_nil (by rintro rfl; cases hframe)]
    exact List.mem_append_right _ hframe
  case known => exact fun frame hframe => h.known frame (hrest.subset hframe)

/-- Nothing is left behind a terminal message. -/
theorem Sound.rest_eq_nil (h : w.Sound) {rest : List Frame} (hrest : frame :: rest <:+ w.inbox)
    (hterminal : frame.terminal = true) : rest = [] := by
  cases rest with
  | nil => rfl
  | cons other rest =>
      have hfalse := (h.read hrest).last frame (by simp)
      rw [hterminal] at hfalse
      cases hfalse

end Laws

end Wire

/-- Where the iteration of the application stands. -/
inductive Iteration
  | idle
  /-- It waits for a message. -/
  | receiving
  /-- The application has a message. -/
  | suspended
  | ended
  | raised
  deriving DecidableEq

def Iteration.active : Iteration → Bool
  | receiving | suspended => true
  | _ => false

/-- Where the call of `close` stands. -/
inductive AsyncClose
  | notCalled
  | sending
  | draining
  /-- In the `finally` block, with a result or with an exception. -/
  | closing (result : Option RealtimeData)
  | failing
  | returned (result : Option RealtimeData)
  | raised

/-- `self._ws` is `None`. -/
def AsyncClose.done : AsyncClose → Bool
  | returned _ | raised => true
  | _ => false

structure AsyncRealtimeSession where
  wire : Wire
  iteration : Iteration
  closer : AsyncClose
  /-- The messages that the iteration has yielded. -/
  handed : List RealtimeMessage

inductive AsyncAction
  | arrive (frame : Frame)
  | serverCloses
  /-- The application asks for the next message. -/
  | iterate
  /-- The waiting iteration is resumed. -/
  | wake
  /-- The application breaks off the iteration. -/
  | leave
  | close
  /-- The end message has been sent, or the connection was closed. -/
  | sent
  | drain
  /-- `ws.close()` returns. -/
  | closed

namespace AsyncRealtimeSession

def connected : AsyncRealtimeSession where
  wire := .fresh
  iteration := .idle
  closer := .notCalled
  handed := []

/-- `recv` in `__aiter__`. -/
def receive (format : Json → String) (s : AsyncRealtimeSession) : AsyncRealtimeSession :=
  match nextText s.wire.inbox with
  | some (data, rest) =>
      match parseMessage format data with
      | .ok message =>
          { s with
              wire := { s.wire with inbox := rest }
              iteration := .suspended
              handed := s.handed ++ [message] }
      | .error _ => { s with wire := { s.wire with inbox := rest }, iteration := .raised }
  | none =>
      { s with
          wire := { s.wire with inbox := [] }
          iteration := if s.wire.connection = .open then .receiving else .ended }

/-- One message that `close` takes. -/
def drain (format : Json → String) (s : AsyncRealtimeSession) : AsyncRealtimeSession :=
  match s.wire.inbox with
  | [] => if s.wire.connection = .open then s else { s with closer := .closing none }
  | .binary :: rest => { s with wire := { s.wire with inbox := rest } }
  | .text data :: rest =>
      match parseMessage format data with
      | .ok message =>
          { s with
              wire := { s.wire with inbox := rest }
              closer := if message.type = .sessionEnd then .closing (some message.data)
                else .draining }
      | .error _ => { s with wire := { s.wire with inbox := rest }, closer := .failing }

def next (format : Json → String) (s : AsyncRealtimeSession) : AsyncAction → AsyncRealtimeSession
  | .arrive frame => { s with wire := s.wire.arrive frame }
  | .serverCloses => { s with wire := s.wire.serverCloses }
  | .iterate =>
      match s.iteration, s.closer with
      | .receiving, _ => s
      -- a second task may not wait for a message of the same connection
      | _, .draining => { s with iteration := .raised }
      | .suspended, _ => s.receive format
      | _, .returned _ | _, .raised => { s with iteration := .raised }
      | _, _ => s.receive format
  | .wake => if s.iteration = .receiving then s.receive format else s
  | .leave => if s.iteration = .suspended then { s with iteration := .idle } else s
  | .close =>
      match s.closer with
      | .notCalled => { s with closer := .sending }
      | _ => s
  | .sent =>
      match s.closer with
      | .sending =>
          if s.wire.connection = .open then
            { s with closer := if s.iteration = .receiving then .failing else .draining }
          else { s with closer := .closing none }
      | _ => s
  | .drain =>
      match s.closer with
      | .draining => s.drain format
      | _ => s
  | .closed =>
      match s.closer with
      | .closing result => { s with wire := s.wire.close, closer := .returned result }
      | .failing => { s with wire := s.wire.close, closer := .raised }
      | _ => s

end AsyncRealtimeSession

/-- The list of callbacks to which `_dispatch` hands a message of the type. -/
def callbackKey : RealtimeMessageType → Option String
  | .transcriptPartial => some "partial"
  | .transcriptFinal => some "final"
  | .vadSpeechStart => some "vad_start"
  | .vadSpeechEnd => some "vad_end"
  | .error => some "error"
  | _ => none

/-- The types whose messages go to the callbacks under a key. -/
def under (key : String) (type : RealtimeMessageType) : Bool := callbackKey type = some key

/-- A call of the callback that was registered as the given one under a key. -/
structure Call where
  key : String
  index : Nat
  message : RealtimeMessage

inductive ReceiveLoop
  | top
  | sending
  | receiving
  | finished
  /-- The event loop was stopped first. -/
  | stopped
  deriving DecidableEq

def ReceiveLoop.ended : ReceiveLoop → Bool
  | finished | stopped => true
  | _ => false

/-- Where the call of `close` stands. -/
inductive SyncClose
  | notCalled
  | waiting
  | cleaning
  | stopping
  | returned (result : Option RealtimeData)

structure RealtimeSession where
  /-- How many callbacks are registered under a key. -/
  callbacks : String → Nat
  wire : Wire
  closeRequested : Bool
  stopEvent : Bool
  loop : ReceiveLoop
  endSent : Bool
  calls : List Call
  /-- The error callbacks have been told of a connection error. -/
  connectionLost : Bool
  sessionEnd : Option RealtimeData
  closer : SyncClose
  /-- What the server had sent when `close` stopped waiting for the loop. -/
  heard : Option (List Frame)

inductive SyncAction
  | arrive (frame : Frame)
  | serverCloses
  /-- The loop looks at the close request. -/
  | turn
  /-- The end message has been sent, or the connection was closed. -/
  | sent
  | recvTimeout
  /-- A message is taken; `raises` tells which of its callbacks raise. -/
  | recv (raises : Nat → Bool)
  | close
  | completed
  | waitTimesOut
  /-- The clean-up of the socket has returned, or was not waited for any longer. -/
  | cleanedUp (closed : Bool)
  | loopStops
  | returns

namespace RealtimeSession

def connected (callbacks : String → Nat) : RealtimeSession where
  callbacks := callbacks
  wire := .fresh
  closeRequested := false
  stopEvent := false
  loop := .top
  endSent := false
  calls := []
  connectionLost := false
  sessionEnd := none
  closer := .notCalled
  heard := none

/-- How many of the callbacks are called: those up to the first that raises. -/
def reached (count : Nat) (raises : Nat → Bool) : Nat :=
  match (List.range count).find? raises with
  | some index => index + 1
  | none => count

/-- The calls of `_dispatch`, and whether it raises. -/
def dispatch (s : RealtimeSession) (raises : Nat → Bool) (message : RealtimeMessage) :
    List Call × Bool :=
  match callbackKey message.type with
  | none => ([], false)
  | some key =>
      ((List.range (reached (s.callbacks key) raises)).map (⟨key, ·, message⟩),
        (List.range (s.callbacks key)).any raises)

/-- The loop is left by an exception. -/
def fail (s : RealtimeSession) : RealtimeSession :=
  { s with loop := .finished, connectionLost := s.connectionLost || !s.stopEvent }

/-- `recv` and what the loop does with the message. -/
def recv (format : Json → String) (s : RealtimeSession) (raises : Nat → Bool) : RealtimeSession :=
  match s.wire.inbox with
  | [] => if s.wire.connection = .open then s else { s with loop := .finished }
  | .binary :: rest => { s with wire := { s.wire with inbox := rest }, loop := .top }
  | .text data :: rest =>
      let s := { s with wire := { s.wire with inbox := rest } }
      match parseMessage format data with
      | .error _ => s.fail
      | .ok message =>
          let (calls, raised) := s.dispatch raises message
          let s := { s with calls := s.calls ++ calls }
          if raised then s.fail
          else if message.type = .sessionEnd then
            { s with sessionEnd := some message.data, loop := .finished }
          else { s with loop := .top }

def next (format : Json → String) (s : RealtimeSession) : SyncAction → RealtimeSession
  | .arrive frame => { s with wire := s.wire.arrive frame }
  | .serverCloses => { s with wire := s.wire.serverCloses }
  | .turn =>
      if s.loop = .top then
        { s with loop := if s.closeRequested && !s.endSent then .sending else .receiving }
      else s
  | .sent =>
      if s.loop = .sending then
        if s.wire.connection = .open then { s with endSent := true, loop := .receiving }
        else { s with loop := .finished }
      else s
  | .recvTimeout => if s.loop = .receiving then { s with loop := .top } else s
  | .recv raises => if s.loop = .receiving then s.recv format raises else s
  | .close =>
      match s.closer with
      | .notCalled => { s with closeRequested := true, closer := .waiting }
      | _ => s
  | .completed =>
      match s.closer with
      | .waiting =>
          if s.loop = .finished then { s with heard := some s.wire.sent, closer := .cleaning }
          else s
      | _ => s
  | .waitTimesOut =>
      match s.closer with
      | .waiting =>
          if s.loop = .finished then s
          else { s with stopEvent := true, heard := some s.wire.sent, closer := .cleaning }
      | _ => s
  | .cleanedUp closed =>
      match s.closer with
      | .cleaning =>
          { s with wire := if closed then s.wire.close else s.wire, closer := .stopping }
      | _ => s
  | .loopStops =>
      match s.closer with
      | .stopping | .returned _ => if s.loop.ended then s else { s with loop := .stopped }
      | _ => s
  | .returns =>
      match s.closer with
      | .stopping => { s with closer := .returned s.sessionEnd }
      | _ => s

end RealtimeSession

end Dalston.Realtime.Sdk
