import Dalston.Model.Json

/-!
# Items of an OpenAI realtime session

The state that the two directions of the adapter share. The client's commits and
clears and the worker's messages are handled one at a time, in any order; each emits
events to the client. The record of a run says which audio a commit closed and which
audio the text of a final came from.
-/

namespace Dalston.Gateway

open Foundation Model

structure OpenAISessionState where
  pendingItemId : String
  activeTranscriptItemId : Option String
  lastCommittedItemId : Option String
  committedItemQueue : List String

namespace OpenAISessionState

def initial (itemId : String) : OpenAISessionState where
  pendingItemId := itemId
  activeTranscriptItemId := none
  lastCommittedItemId := none
  committedItemQueue := []

/-- The active item, and the state in which it is active. -/
def ensureActiveItem (state : OpenAISessionState) : String × OpenAISessionState :=
  match state.activeTranscriptItemId with
  | some itemId => (itemId, state)
  | none =>
      match state.committedItemQueue with
      | itemId :: _ => (itemId, { state with activeTranscriptItemId := some itemId })
      | [] =>
          (state.pendingItemId,
            { state with activeTranscriptItemId := some state.pendingItemId })

/-- The oldest item leaves a queue that is too long. -/
def dropOverflow (maxDepth : Int) (state : OpenAISessionState) : OpenAISessionState :=
  if maxDepth < state.committedItemQueue.length then
    match state.committedItemQueue with
    | dropped :: rest =>
        { state with
          committedItemQueue := rest
          activeTranscriptItemId :=
            if state.activeTranscriptItemId = some dropped then rest.head?
            else state.activeTranscriptItemId }
    | [] => state
  else state

/-- The pending item is queued and a new one, with the id given, takes its place. -/
def commitActiveItem (maxDepth : Int) (newId : String) (state : OpenAISessionState) :
    String × Option String × OpenAISessionState :=
  let itemId := state.pendingItemId
  let queued := dropOverflow maxDepth {
    state with
      lastCommittedItemId := some itemId
      committedItemQueue := state.committedItemQueue ++ [itemId] }
  (itemId, state.lastCommittedItemId,
    { queued with
      activeTranscriptItemId := some (queued.activeTranscriptItemId.getD itemId)
      pendingItemId := newId })

def finalizeActiveItem (state : OpenAISessionState) : OpenAISessionState :=
  match state.activeTranscriptItemId with
  | none => state
  | some active =>
      let queue := state.committedItemQueue.erase active
      { state with committedItemQueue := queue, activeTranscriptItemId := queue.head? }

/-- An active item that is queued stays active. -/
def discardPendingItem (newId : String) (state : OpenAISessionState) : OpenAISessionState :=
  match state.activeTranscriptItemId with
  | some active =>
      if active ∈ state.committedItemQueue then { state with pendingItemId := newId }
      else { state with activeTranscriptItemId := none, pendingItemId := newId }
  | none => { state with pendingItemId := newId }

end OpenAISessionState

/-- A stretch of the audio that the client has appended. -/
structure Span where
  start : Nat
  stop : Nat

/-- One span lies in the other. -/
def Span.Within (inner outer : Span) : Prop :=
  outer.start ≤ inner.start ∧ inner.stop ≤ outer.stop

instance (inner outer : Span) : Decidable (inner.Within outer) := by
  unfold Span.Within
  infer_instance

/-- What the adapter handles, with the ids it generates and the audio of a final's text. -/
inductive AdapterEvent
  | append (size : Nat)
  | commit (newId : String)
  | clear (newId : String)
  | transcriptPartial (text : Json)
  | transcriptFinal (text : Json) (audio : Span)
  | speechStart (timestamp : Rat)
  | speechEnd (timestamp : Rat)

/-- The events that are sent to the client. -/
inductive ClientEvent
  | itemCreated (itemId : String) (previousItemId : Option String)
  | bufferCommitted (itemId : String) (previousItemId : Option String)
  | bufferCleared
  | delta (itemId : String) (text : Json)
  | completed (itemId : String) (transcript : Json)
  | speechStarted (itemId : String) (audioStartMs : Int)
  | speechStopped (itemId : String) (audioEndMs : Int)

/-- `int(timestamp * 1000)`, which rounds towards zero. -/
def milliseconds (timestamp : Rat) : Int :=
  if 0 ≤ timestamp then ⌊timestamp * 1000⌋ else ⌈timestamp * 1000⌉

/-- The state after an event, and the events that the client is sent. -/
def OpenAISessionState.handle (maxDepth : Int) (state : OpenAISessionState) :
    AdapterEvent → OpenAISessionState × List ClientEvent
  | .append _ => (state, [])
  | .commit newId =>
      let (itemId, previous, next) := state.commitActiveItem maxDepth newId
      (next, [.itemCreated itemId previous, .bufferCommitted itemId previous])
  | .clear newId => (state.discardPendingItem newId, [.bufferCleared])
  | .transcriptPartial text =>
      let (itemId, next) := state.ensureActiveItem
      (next, [.delta itemId text])
  | .transcriptFinal text _ =>
      let (itemId, next) := state.ensureActiveItem
      (next.finalizeActiveItem, [.completed itemId text])
  | .speechStart timestamp =>
      let (itemId, next) := state.ensureActiveItem
      (next, [.speechStarted itemId (milliseconds timestamp)])
  | .speechEnd timestamp =>
      let (itemId, next) := state.ensureActiveItem
      (next, [.speechStopped itemId (milliseconds timestamp)])

/-- An item and a stretch of audio: what its commit closed, or what its text is of. -/
structure ItemAudio where
  itemId : String
  audio : Span

/-- A session with the record of its commits and completed events. -/
structure ItemSession where
  state : OpenAISessionState
  received : Nat
  committedUntil : Nat
  commits : List ItemAudio
  completions : List ItemAudio

namespace ItemSession

def start (itemId : String) : ItemSession where
  state := .initial itemId
  received := 0
  committedUntil := 0
  commits := []
  completions := []

/-- The record of an event to the client; `audio` is what a completed event's text is of. -/
def note (audio : Span) (session : ItemSession) : ClientEvent → ItemSession
  | .bufferCommitted itemId _ =>
      { session with
        commits := session.commits ++
          [{ itemId, audio := { start := session.committedUntil, stop := session.received } }]
        committedUntil := session.received }
  | .completed itemId _ =>
      { session with completions := session.completions ++ [{ itemId, audio }] }
  | _ => session

def receive : AdapterEvent → Nat
  | .append size => size
  | _ => 0

def textAudio : AdapterEvent → Span
  | .transcriptFinal _ audio => audio
  | _ => { start := 0, stop := 0 }

def step (maxDepth : Int) (session : ItemSession) (event : AdapterEvent) : ItemSession :=
  let (state, sent) := session.state.handle maxDepth event
  sent.foldl (note (textAudio event))
    { session with state, received := session.received + receive event }

def run (maxDepth : Int) (session : ItemSession) (events : List AdapterEvent) : ItemSession :=
  events.foldl (step maxDepth) session

/-- What the client is promised about its items. -/
structure Correlated (session : ItemSession) : Prop where
  once : (session.completions.map (·.itemId)).Nodup
  ordered : ((session.completions.map (·.itemId)).filter
    (· ∈ session.commits.map (·.itemId))).Sublist (session.commits.map (·.itemId))
  text : ∀ completion ∈ session.completions, ∀ commit ∈ session.commits,
    completion.itemId = commit.itemId → completion.audio.Within commit.audio

end ItemSession

/-- The id that the adapter generates while it handles an event. -/
def generatedId : AdapterEvent → Option String
  | .commit newId | .clear newId => some newId
  | _ => none

end Dalston.Gateway
