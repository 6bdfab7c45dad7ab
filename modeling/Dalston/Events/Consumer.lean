import Dalston.Foundation.Pool
import Dalston.Model.Json

/-!
# The consumer of durable events

Events are appended to a Redis stream of bounded length and read through a
consumer group. A message that was delivered stays pending until it is
acknowledged; pending messages are claimed again when they have been idle for a
while. A message is acknowledged after its handler has succeeded, or after a copy
of it was added to the dead-letter stream.

## Implementation notes

A field's text comes with what `json.loads` makes of it. What a handler answers,
how long a message has been idle, and how far an append trims the stream beyond
its maximal length are set from outside. The log, and the list of the messages
delivered since the consumer has started, record what has happened; no program
reads them.
-/

namespace Dalston.Events

open Foundation Model

abbrev MessageId := Nat

/-- What `json.loads` makes of a text. -/
inductive Decoded
  | object (fields : Config)
  /-- A JSON value that is not an object. -/
  | value
  | invalid (error : String)

/-- The text of a stream field. -/
structure EventText where
  raw : String
  decoded : Decoded

inductive FailureReason
  | invalidPayloadJson | invalidEventSchema | unknownEventType | handlerException | dispatchError

/-- Typed envelope for events consumed from the durable stream. -/
structure DurableEventEnvelope where
  messageId : MessageId
  deliveryCount : Nat
  rawFields : Dict EventText
  eventType : Option String
  timestamp : Option String
  payload : Option Config
  rawPayload : Option EventText
  traceContext : Option Config
  failureReason : Option FailureReason
  error : Option String

/-- `fields.get(key) or None`. -/
def textField (fields : Dict EventText) (key : String) : Option String :=
  match fields.get? key with
  | none => none
  | some text => if text.raw = "" then none else some text.raw

/-- `_parse_trace_context`. -/
def parseTraceContext : Option EventText → Option Config
  | some ⟨_, .object context⟩ => some context
  | _ => none

def parsePayload : Option EventText → Except (FailureReason × String) Config
  | none => .error (.invalidEventSchema, "missing_payload_field")
  | some ⟨_, .object payload⟩ => .ok payload
  | some ⟨_, .value⟩ => .error (.invalidEventSchema, "payload_must_be_json_object")
  | some ⟨_, .invalid error⟩ => .error (.invalidPayloadJson, error)

def parseEvent (eventType : Option String) (rawPayload : Option EventText) :
    Except (FailureReason × String) Config :=
  match eventType with
  | none => .error (.invalidEventSchema, "missing_or_invalid_type")
  | some _ => parsePayload rawPayload

/-- `_parse_envelope`. -/
def parseEnvelope (messageId : MessageId) (fields : Dict EventText) (deliveryCount : Nat) :
    DurableEventEnvelope :=
  let eventType := textField fields "type"
  let rawPayload := fields.get? "payload"
  let base : DurableEventEnvelope := {
    messageId
    deliveryCount := max deliveryCount 1
    rawFields := fields
    eventType
    timestamp := textField fields "timestamp"
    payload := none
    rawPayload
    traceContext := parseTraceContext (fields.get? "_trace_context")
    failureReason := none
    error := none }
  match parseEvent eventType rawPayload with
  | .ok payload => { base with payload := some payload }
  | .error (reason, error) => { base with failureReason := some reason, error := some error }

/-- How the dispatch of an event ends. -/
inductive Outcome
  | handled
  | unknownEventType (error : String)
  | eventSchema (error : String)
  | handlerExecution (error : String)
  /-- Any other exception. -/
  | otherError (error : String)

structure Failure where
  reason : FailureReason
  error : String
  retryable : Bool

/-- The classification of an outcome. -/
def Outcome.failure : Outcome → Option Failure
  | handled => none
  | unknownEventType error => some ⟨.unknownEventType, error, false⟩
  | eventSchema error => some ⟨.invalidEventSchema, error, false⟩
  | handlerExecution error => some ⟨.handlerException, error, true⟩
  | otherError error => some ⟨.dispatchError, error, true⟩

/-- A message of the dead-letter stream. -/
structure DlqEntry where
  sourceStream : String := "dalston:events:stream"
  sourceGroup : String := "orchestrators"
  sourceMessageId : MessageId
  eventType : String
  failureReason : FailureReason
  error : String
  deliveryCount : Nat
  consumerId : String
  payload : Option Config
  rawPayload : Option EventText
  rawFields : Dict EventText

/-- `_build_dlq_entry`. -/
def buildDlqEntry (consumerId : String) (envelope : DurableEventEnvelope) (failure : Failure) :
    DlqEntry where
  sourceMessageId := envelope.messageId
  eventType := envelope.eventType.getD "unknown"
  failureReason := failure.reason
  error := failure.error
  deliveryCount := envelope.deliveryCount
  consumerId
  payload := envelope.payload
  rawPayload := envelope.rawPayload
  rawFields := envelope.rawFields

structure StreamEntry where
  id : MessageId
  fields : Dict EventText

/-- An entry of the group's pending list. -/
structure Pending where
  id : MessageId
  deliveries : Nat
  idleMs : Nat

/-- What the consumer has done. -/
inductive Record
  | started
  | dispatched (id : MessageId) (deliveryCount : Nat) (outcome : Outcome)
  | deadLettered (id : MessageId)

structure EventStore where
  /-- The entries that were not trimmed, oldest first. -/
  stream : List StreamEntry
  nextId : MessageId
  /-- The group has been offered the messages below. -/
  delivered : MessageId
  /-- The pending list, by message id. -/
  pending : List Pending
  dlq : List DlqEntry
  /-- How the next dispatch ends. -/
  answer : Outcome
  /-- The latest record comes first. -/
  log : List Record
  /-- The messages delivered since the consumer has started. -/
  recent : List MessageId

def EventStore.empty : EventStore where
  stream := []
  nextId := 0
  delivered := 0
  pending := []
  dlq := []
  answer := .handled
  log := []
  recent := []

/-- What a claim finds: the messages it takes, those that were trimmed, and where the next
claim goes on. -/
structure Claim where
  claimed : List MessageId
  deleted : List MessageId
  cursor : Option MessageId

/-- The scan of `XAUTOCLAIM`; it ends after so many entries, or so many messages. -/
def scanPending (exist : MessageId → Bool) (minIdleMs : Nat) :
    Nat → Nat → List Pending → Claim
  | _, _, [] => ⟨[], [], none⟩
  | 0, _, p :: _ | _ + 1, 0, p :: _ => ⟨[], [], some p.id⟩
  | attempts + 1, count + 1, p :: rest =>
      if exist p.id = false then
        let claim := scanPending exist minIdleMs attempts count rest
        { claim with deleted := p.id :: claim.deleted }
      else if p.idleMs < minIdleMs then scanPending exist minIdleMs attempts (count + 1) rest
      else
        let claim := scanPending exist minIdleMs attempts count rest
        { claim with claimed := p.id :: claim.claimed }

namespace EventStore

def message? (s : EventStore) (id : MessageId) : Option StreamEntry := s.stream.find? (·.id = id)

def autoclaim (s : EventStore) (minIdleMs count : Nat) (cursor : MessageId) : Claim :=
  scanPending (fun id => (s.message? id).isSome) minIdleMs (count * 10) count
    (s.pending.filter (cursor ≤ ·.id))

/-- The messages a claim returns. -/
def claimedEntries (s : EventStore) (minIdleMs count : Nat) (cursor : MessageId) :
    List StreamEntry :=
  (s.autoclaim minIdleMs count cursor).claimed.filterMap s.message?

/-- The messages that are read next. -/
def newEntries (s : EventStore) (count : Nat) : List StreamEntry :=
  (s.stream.filter (s.delivered ≤ ·.id)).take count

/-- `times_delivered`, which is 1 where the entry is missing. -/
def deliveryCount (s : EventStore) (id : MessageId) : Nat :=
  ((s.pending.find? (·.id = id)).map (·.deliveries)).getD 1

end EventStore

/-- `MAX_STREAM_LENGTH`. -/
def maxStreamLength : Nat := 10000

inductive EventEffect
  /-- `ensure_events_stream_group` when the process starts. -/
  | ensureGroup
  | xautoclaim (minIdleMs count : Nat) (cursor : MessageId)
  | xpendingRange (id : MessageId)
  | xreadgroup (count : Nat)
  | dispatch (envelope : DurableEventEnvelope)
  | xaddDlq (entry : DlqEntry)
  | xack (id : MessageId)
  /-- `add_durable_event`; the append may trim so many entries beyond the maximal length. -/
  | xadd (fields : Dict EventText) (trimmed : Nat)
  | answers (outcome : Outcome)
  | timePasses (idleMs : MessageId → Nat)

namespace EventStore

/-- How many of the oldest entries an append removes. -/
def trims (s : EventStore) (trimmed : Nat) : Nat :=
  min trimmed (s.stream.length + 1 - maxStreamLength)

end EventStore

def EventEffect.apply (e : EventEffect) (s : EventStore) : EventStore :=
  match e with
  | .ensureGroup => { s with log := .started :: s.log, recent := [] }
  | .xautoclaim minIdleMs count cursor =>
      let claim := s.autoclaim minIdleMs count cursor
      { s with
          pending := (s.pending.filter fun p => p.id ∉ claim.deleted).map fun p =>
            if p.id ∈ claim.claimed then { p with deliveries := p.deliveries + 1, idleMs := 0 }
            else p
          recent := claim.claimed ++ s.recent }
  | .xpendingRange _ => s
  | .xreadgroup count =>
      { s with
          pending := s.pending ++ (s.newEntries count).map fun m => (⟨m.id, 1, 0⟩ : Pending)
          delivered := ((s.newEntries count).getLast?.map fun m => m.id + 1).getD s.delivered
          recent := (s.newEntries count).map (·.id) ++ s.recent }
  | .dispatch envelope =>
      { s with log := .dispatched envelope.messageId envelope.deliveryCount s.answer :: s.log }
  | .xaddDlq entry =>
      { s with dlq := s.dlq ++ [entry], log := .deadLettered entry.sourceMessageId :: s.log }
  | .xack id => { s with pending := s.pending.filter (·.id ≠ id) }
  | .xadd fields trimmed =>
      { s with
          stream := List.drop (s.trims trimmed) (s.stream ++ [⟨s.nextId, fields⟩])
          nextId := s.nextId + 1 }
  | .answers outcome => { s with answer := outcome }
  | .timePasses idleMs => { s with pending := s.pending.map fun p => { p with idleMs := idleMs p.id } }

instance : Interprets EventEffect EventStore := ⟨EventEffect.apply⟩

abbrev EventOp (A : Type) := Program EventEffect EventStore A

def emit (e : EventEffect) : EventOp Unit := do
  let _ ← Program.perform e
  return ()

/-- Look up the delivery counts of the claimed messages. -/
def parseClaimed : List StreamEntry → List DurableEventEnvelope →
    EventOp (List DurableEventEnvelope)
  | [], events => return events
  | m :: rest, events => do
      let before ← Program.perform (.xpendingRange m.id)
      parseClaimed rest (events ++ [parseEnvelope m.id m.fields (before.deliveryCount m.id)])

/-- `claim_stale_pending_events` after so many iterations are left. -/
def claimStalePendingEvents (minIdleMs count : Nat) : Nat → MessageId →
    List DurableEventEnvelope → EventOp (List DurableEventEnvelope)
  | 0, _, events => return events
  | iterations + 1, cursor, events => do
      let before ← Program.perform (.xautoclaim minIdleMs count cursor)
      if (before.claimedEntries minIdleMs count cursor).isEmpty then return events
      else do
        let events ← parseClaimed (before.claimedEntries minIdleMs count cursor) events
        match (before.autoclaim minIdleMs count cursor).cursor with
        | none => return events
        | some next => claimStalePendingEvents minIdleMs count iterations next events

def readNewEvents (count : Nat) : EventOp (List DurableEventEnvelope) := do
  let before ← Program.perform (.xreadgroup count)
  return (before.newEntries count).map fun m => parseEnvelope m.id m.fields 1

structure EventSettings where
  eventsMaxDeliveries : Nat
  /-- The setting is validated with `ge=1`. -/
  positive : 1 ≤ eventsMaxDeliveries

/-- `move_event_to_dlq`: first the copy, then the acknowledgement. -/
def moveEventToDlq (consumerId : String) (envelope : DurableEventEnvelope) (failure : Failure) :
    EventOp Unit := do
  emit (.xaddDlq (buildDlqEntry consumerId envelope failure))
  emit (.xack envelope.messageId)

/-- The decision about a failed event: leave it pending, or move it. -/
def decideFailure (settings : EventSettings) (consumerId : String)
    (envelope : DurableEventEnvelope) (failure : Failure) : EventOp Unit :=
  if failure.retryable ∧ envelope.deliveryCount < settings.eventsMaxDeliveries then return ()
  else moveEventToDlq consumerId envelope failure

def decideEvent (settings : EventSettings) (consumerId : String)
    (envelope : DurableEventEnvelope) : Option Failure → EventOp Unit
  | none => emit (.xack envelope.messageId)
  | some failure => decideFailure settings consumerId envelope failure

/-- `_process_durable_event`. -/
def processDurableEvent (settings : EventSettings) (consumerId : String)
    (envelope : DurableEventEnvelope) : EventOp Unit :=
  match envelope.failureReason with
  | some reason =>
      decideFailure settings consumerId envelope
        ⟨reason, envelope.error.getD "invalid_durable_event", false⟩
  | none => do
      let before ← Program.perform (.dispatch envelope)
      decideEvent settings consumerId envelope before.answer.failure

def processDurableEvents (settings : EventSettings) (consumerId : String) :
    List DurableEventEnvelope → EventOp Unit
  | [] => return ()
  | event :: rest => do
      processDurableEvent settings consumerId event
      processDurableEvents settings consumerId rest

/-- `_claim_and_replay_stale_events`. -/
def claimAndReplayStaleEvents (settings : EventSettings) (consumerId : String)
    (isStartup : Bool) : EventOp Unit := do
  let staleEvents ← claimStalePendingEvents (if isStartup then 30000 else 300000) 100
    (if isStartup then 100 else 10) 0 []
  processDurableEvents settings consumerId staleEvents

/-- Claim stale events when the interval is over. -/
def claimPeriodically (settings : EventSettings) (consumerId : String) (due : Bool) :
    EventOp Unit :=
  if due then claimAndReplayStaleEvents settings consumerId false else return ()

/-- The event loop, with whether a claim is due in each of its iterations. -/
def consumeEvents (settings : EventSettings) (consumerId : String) : List Bool → EventOp Unit
  | [] => return ()
  | due :: rest => do
      claimPeriodically settings consumerId due
      let events ← readNewEvents 10
      processDurableEvents settings consumerId events
      consumeEvents settings consumerId rest

/-- One life of the consumer process. -/
structure Orchestrator where
  consumerId : String
  due : List Bool

def Orchestrator.code (settings : EventSettings) (o : Orchestrator) : EventOp Unit := do
  emit .ensureGroup
  claimAndReplayStaleEvents settings o.consumerId true
  consumeEvents settings o.consumerId o.due

abbrev EventShared := Shared Orchestrator EventEffect EventStore Unit

abbrev EventPool := Pool Orchestrator EventEffect EventStore Unit

end Dalston.Events
