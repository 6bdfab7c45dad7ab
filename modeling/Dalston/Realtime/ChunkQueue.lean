import Dalston.Foundation.Actions

/-!
# The chunk queue of a streaming session

The message handler puts chunks into a bounded queue, from which a decoder thread takes
them; the thread puts its results into a second queue for the decode loop. At the end
of the session the handler puts a sentinel and waits for the loop. The thread can end
early: the engine raises or returns, or no chunk comes within ten seconds.

## Implementation notes

A chunk is its number. The thread asks for a chunk through a coroutine on the event
loop, which is not cancelled when the wait for it expires and still takes an item.
-/

namespace Dalston.Realtime

open Foundation

def CHUNK_QUEUE_SIZE : Nat := 100

inductive QueueItem
  | chunk (number : Nat)
  | sentinel

/-- Where the message handler stands. -/
inductive StreamHandler
  | receiving
  /-- It waits for room in the queue. -/
  | putting (item : QueueItem)
  | leaving
  /-- The sentinel is in the queue and the decode loop is awaited. -/
  | joining
  | stopped

inductive DecoderThread
  /-- The engine works on what it has. -/
  | working
  /-- The thread waits for an item. -/
  | waiting
  /-- The sentinel was taken. -/
  | exhausted
  | ended
  deriving DecidableEq

inductive DecoderResult
  | words
  | done
  deriving DecidableEq

structure StreamSession where
  handler : StreamHandler
  queue : List QueueItem
  thread : DecoderThread
  /-- A coroutine that waits for an item no thread asks for any more. -/
  orphan : Bool
  results : List DecoderResult
  loopEnded : Bool
  received : Nat
  decoded : List Nat
  /-- The chunks received after the thread had ended. -/
  late : List Nat
  errorSent : Bool

namespace StreamSession

def start : StreamSession where
  handler := .receiving
  queue := []
  thread := .working
  orphan := false
  results := []
  loopEnded := false
  received := 0
  decoded := []
  late := []
  errorSent := false

def HasRoom (s : StreamSession) : Prop := s.queue.length < CHUNK_QUEUE_SIZE

instance (s : StreamSession) : Decidable s.HasRoom := by
  unfold HasRoom
  infer_instance

/-- Where the handler is once its item is in the queue. -/
def afterPut : QueueItem → StreamHandler
  | .chunk _ => .receiving
  | .sentinel => .joining

/-- `await queue.put(item)`: the handler waits if there is no room. -/
def put (item : QueueItem) (s : StreamSession) : StreamSession :=
  if s.HasRoom then { s with queue := s.queue ++ [item], handler := afterPut item }
  else { s with handler := .putting item }

/-- A chunk of audio is put into the queue. -/
def receive (s : StreamSession) : StreamSession :=
  put (.chunk s.received) {
    s with
      received := s.received + 1
      late := if s.thread = .ended then s.late ++ [s.received] else s.late }

/-- The thread is handed an item. -/
def take (item : QueueItem) (rest : List QueueItem) (s : StreamSession) : StreamSession :=
  match item with
  | .chunk number =>
      { s with queue := rest, thread := .working, decoded := s.decoded ++ [number] }
  | .sentinel => { s with queue := rest, thread := .exhausted }

def endThread (s : StreamSession) : StreamSession :=
  { s with thread := .ended, results := s.results ++ [.done] }

end StreamSession

inductive StreamAction
  | receive
  | resume
  | failed
  | leave
  | teardown
  | join
  | request
  | take
  | emit
  | raised
  | expired
  | takeOrphan
  | consume

/-- A step of the handler, the thread, the orphaned coroutine or the decode loop. -/
inductive StreamStep : StreamSession → StreamAction → StreamSession → Prop
  | receive {s : StreamSession} :
      s.handler = .receiving → StreamStep s .receive s.receive
  /-- There is room again for what the handler puts. -/
  | resume {s : StreamSession} {item : QueueItem} :
      s.handler = .putting item → s.HasRoom → StreamStep s .resume (s.put item)
  /-- An exception in the message loop is reported to the client. -/
  | failed {s : StreamSession} :
      s.handler = .receiving → StreamStep s .failed { s with handler := .leaving, errorSent := true }
  /-- An end message, the end of the connection, or termination for lag. -/
  | leave {s : StreamSession} :
      s.handler = .receiving → StreamStep s .leave { s with handler := .leaving }
  | teardown {s : StreamSession} :
      s.handler = .leaving → StreamStep s .teardown (s.put .sentinel)
  /-- The loop has ended, or the timeout has passed and it is cancelled. -/
  | join {s : StreamSession} :
      s.handler = .joining → StreamStep s .join { s with handler := .stopped, loopEnded := true }
  | request {s : StreamSession} :
      s.thread = .working → StreamStep s .request { s with thread := .waiting }
  | take {s : StreamSession} {item : QueueItem} {rest : List QueueItem} :
      s.thread = .waiting → s.queue = item :: rest → StreamStep s .take (s.take item rest)
  | emit {s : StreamSession} :
      s.thread = .working ∨ s.thread = .exhausted →
      StreamStep s .emit { s with results := s.results ++ [.words] }
  /-- The engine raises or returns. -/
  | raised {s : StreamSession} :
      s.thread = .working ∨ s.thread = .exhausted → StreamStep s .raised s.endThread
  /-- No item has come within ten seconds, which raises in the engine. -/
  | expired {s : StreamSession} :
      s.thread = .waiting → StreamStep s .expired { s.endThread with orphan := true }
  | takeOrphan {s : StreamSession} {item : QueueItem} {rest : List QueueItem} :
      s.orphan = true → s.queue = item :: rest →
      StreamStep s .takeOrphan { s with queue := rest, orphan := false }
  | consume {s : StreamSession} {result : DecoderResult} {rest : List DecoderResult} :
      s.loopEnded = false → s.results = result :: rest →
      StreamStep s .consume { s with results := rest, loopEnded := decide (result = .done) }

abbrev StreamRun (ok : StreamSession → StreamAction → Prop) :
    StreamSession → StreamSession → Prop :=
  ActionRun StreamStep ok

/-- Whatever happens. -/
def anyhow (_ : StreamSession) (_ : StreamAction) : Prop := True

namespace StreamSession

/-- The handler waits for room, and there is none. -/
def Blocked (s : StreamSession) : Prop := (∃ item, s.handler = .putting item) ∧ ¬ s.HasRoom

/-- The handler waits for room that will never come. -/
def Stuck (s : StreamSession) : Prop := ∀ s', StreamRun anyhow s s' → s'.Blocked

/-- The handler is never stuck, and audio that came after the thread's end is not lost. -/
structure Progress (s : StreamSession) : Prop where
  notStuck : ¬ s.Stuck
  heard : s.handler = .stopped → ∀ chunk ∈ s.late, chunk ∈ s.decoded ∨ s.errorSent = true

end StreamSession

/-- The thread does not end under a handler that waits for room, and once it has ended no
audio comes and the teardown finds room. -/
def Attended (s : StreamSession) : StreamAction → Prop
  | .receive => s.thread ≠ .ended
  | .teardown => s.thread = .ended → s.HasRoom
  | .raised | .expired => ¬ s.Blocked
  | _ => True

namespace StreamSession

variable {s s' : StreamSession}

/-- A put leaves the handler blocked only if there was no room. -/
theorem blocked_put {item : QueueItem} (h : (s.put item).Blocked) : ¬ s.HasRoom := by
  intro hroom
  obtain ⟨⟨item', hputting⟩, _⟩ := h
  rw [put, if_pos hroom] at hputting
  cases item <;> cases hputting

theorem put_thread (item : QueueItem) : (s.put item).thread = s.thread := by
  unfold put
  split <;> rfl

theorem put_late (item : QueueItem) : (s.put item).late = s.late := by
  unfold put
  split <;> rfl

/-- The session is past its last put. -/
def Finished (s : StreamSession) : Prop := s.handler = .joining ∨ s.handler = .stopped

/-- Nothing blocks the handler while the thread is gone, and no audio is late. -/
structure InHand (s : StreamSession) : Prop where
  alive : s.Blocked → s.thread ≠ .ended
  late : s.late = []
  sentinel : QueueItem.sentinel ∈ s.queue ∨ s.thread = .exhausted → s.Finished
  bounded : s.queue.length ≤ CHUNK_QUEUE_SIZE

namespace InHand

theorem start : StreamSession.start.InHand where
  alive := fun _ => by simp [StreamSession.start]
  late := rfl
  sentinel := by simp [StreamSession.start]
  bounded := Nat.zero_le _

/-- The handler moves between points at which it puts nothing. -/
theorem withHandler (h : s.InHand) (handler : StreamHandler)
    (hpoint : ∀ item, handler ≠ .putting item)
    (hfinished : s.Finished → handler = .joining ∨ handler = .stopped) :
    ({ s with handler } : StreamSession).InHand where
  alive := fun ⟨⟨item, hputting⟩, _⟩ => absurd hputting (hpoint item)
  late := h.late
  sentinel := fun hsentinel => hfinished (h.sentinel hsentinel)
  bounded := h.bounded

/-- A put by a handler that has not finished. -/
theorem put (h : s.InHand) {item : QueueItem} (hopen : ¬ s.Finished)
    (hok : ¬ s.HasRoom → s.thread ≠ .ended) : (s.put item).InHand where
  alive := by
    intro hblocked
    rw [put_thread]
    exact hok (blocked_put hblocked)
  late := (put_late item).trans h.late
  sentinel := by
    rw [put_thread]
    unfold StreamSession.put
    split
    · intro hsentinel
      cases item with
      | sentinel => exact Or.inl rfl
      | chunk number =>
          exact absurd (h.sentinel (hsentinel.imp_left fun hmem => by simpa using hmem)) hopen
    · exact fun hsentinel => absurd (h.sentinel hsentinel) hopen
  bounded := by
    unfold StreamSession.put
    split
    case isTrue hroom =>
      rw [List.length_append]
      exact hroom
    case isFalse => exact h.bounded

/-- The thread changes state while the queue stays as it is. -/
theorem withThread (h : s.InHand) (thread : DecoderThread) (orphan : Bool)
    (results : List DecoderResult) (hended : thread = .ended → ¬ s.Blocked)
    (hexhausted : thread ≠ .exhausted) :
    ({ s with thread, orphan, results } : StreamSession).InHand where
  alive := fun hblocked hthread => hended hthread hblocked
  late := h.late
  sentinel := fun hsentinel => h.sentinel <| hsentinel.imp_right fun hthread =>
    absurd hthread hexhausted
  bounded := h.bounded

theorem withResults (h : s.InHand) {results : List DecoderResult} {loopEnded : Bool} :
    ({ s with results, loopEnded } : StreamSession).InHand :=
  ⟨h.alive, h.late, h.sentinel, h.bounded⟩

/-- An item leaves the queue. -/
theorem tail (h : s.InHand) {item : QueueItem} {rest : List QueueItem}
    (hqueue : s.queue = item :: rest) (orphan : Bool) :
    ({ s with queue := rest, orphan } : StreamSession).InHand where
  alive := by
    rintro ⟨hputting, hroom⟩
    refine h.alive ⟨hputting, fun hless => hroom ?_⟩
    have hlength : s.queue.length < CHUNK_QUEUE_SIZE := hless
    rw [hqueue, List.length_cons] at hlength
    exact Nat.lt_of_succ_lt hlength
  late := h.late
  sentinel := fun hsentinel => h.sentinel <| hsentinel.imp_left fun hmem => by
    rw [hqueue]
    exact List.mem_cons_of_mem _ hmem
  bounded := by
    have hlength := h.bounded
    rw [hqueue, List.length_cons] at hlength
    exact Nat.le_of_succ_le hlength

theorem take (h : s.InHand) {item : QueueItem} {rest : List QueueItem}
    (hqueue : s.queue = item :: rest) : (s.take item rest).InHand := by
  have htail := h.tail hqueue s.orphan
  cases item with
  | chunk number =>
      exact { htail.withThread .working s.orphan s.results (by simp) (by simp) with }
  | sentinel =>
      have hfinished : s.Finished := h.sentinel (Or.inl (by rw [hqueue]; exact List.mem_cons_self))
      exact {
        alive := fun _ => by simp [StreamSession.take]
        late := h.late
        sentinel := fun _ => hfinished
        bounded := htail.bounded }

/-- Every attended step keeps the session in hand. -/
theorem step (h : s.InHand) {action : StreamAction} (hstep : StreamStep s action s')
    (hok : Attended s action) : s'.InHand := by
  cases hstep with
  | receive hhandler =>
      have hended : s.thread ≠ .ended := hok
      have hcounted : ({ s with
          received := s.received + 1
          late := if s.thread = .ended then s.late ++ [s.received] else s.late } :
          StreamSession).InHand :=
        ⟨h.alive, by simpa only [if_neg hended] using h.late, h.sentinel, h.bounded⟩
      apply hcounted.put
      case hopen => simp [Finished, hhandler]
      case hok => exact fun _ => hended
  | resume hhandler hroom =>
      exact h.put (by simp [Finished, hhandler]) fun hfull => absurd hroom hfull
  | failed hhandler =>
      exact { h.withHandler .leaving (by simp)
        (fun hfinished => by simp [Finished, hhandler] at hfinished) with }
  | leave hhandler =>
      exact h.withHandler .leaving (by simp) fun hfinished => by simp [Finished, hhandler] at hfinished
  | teardown hhandler =>
      refine h.put (by simp [Finished, hhandler]) fun hfull hended => ?_
      exact hfull (hok hended)
  | join hhandler =>
      exact { h.withHandler .stopped (by simp) (fun _ => Or.inr rfl) with }
  | request hthread =>
      exact h.withThread .waiting s.orphan s.results (by simp) (by simp)
  | take hthread hqueue => exact h.take hqueue
  | emit hthread => exact h.withResults
  | raised hthread =>
      exact h.withThread .ended s.orphan (s.results ++ [.done]) (fun _ => hok) (by simp)
  | expired hthread => exact h.withThread .ended true (s.results ++ [.done]) (fun _ => hok) (by simp)
  | takeOrphan horphan hqueue => exact h.tail hqueue false
  | consume hloop hresults => exact h.withResults

/-- A thread that has not ended can still take an item and make room. -/
theorem not_stuck (h : s.InHand) : ¬ s.Stuck := by
  intro hstuck
  have hblocked := hstuck s (.refl s)
  have hended := h.alive hblocked
  obtain ⟨⟨item, hputting⟩, hroom⟩ := hblocked
  have hexhausted : s.thread ≠ .exhausted := by
    intro hthread
    have hfinished := h.sentinel (Or.inr hthread)
    simp [Finished, hputting] at hfinished
  have hwaiting : StreamRun anyhow s { s with thread := .waiting } := by
    cases hthread : s.thread with
    | working => exact .single (.request hthread) trivial
    | waiting =>
        rw [show ({ s with thread := .waiting } : StreamSession) = s by rw [← hthread]]
        exact .refl s
    | exhausted => exact absurd hthread hexhausted
    | ended => exact absurd hthread hended
  cases hqueue : s.queue with
  | nil => exact hroom (by simp [HasRoom, hqueue, CHUNK_QUEUE_SIZE])
  | cons first rest =>
      have hlength := h.bounded
      rw [hqueue, List.length_cons] at hlength
      have hreached := hstuck _ (hwaiting.step (.take rfl hqueue) trivial)
      apply hreached.2
      cases first <;> exact hlength

theorem progress (h : s.InHand) : s.Progress where
  notStuck := h.not_stuck
  heard := by
    intro _ chunk hchunk
    rw [h.late] at hchunk
    cases hchunk

end InHand

end StreamSession

/-- A streaming session whose decoder thread ends, if it does, with nothing waiting to be put
and no audio to come never gets stuck and loses no audio. -/
theorem progress_of_attended {s : StreamSession} (hrun : StreamRun Attended .start s) :
    s.Progress :=
  (hrun.invariant StreamSession.InHand.start fun _ _ _ h hstep hok => h.step hstep hok).progress

/-- One chunk is decoded, and the thread ends at the sentinel. -/
theorem progress_drained :
    (StreamSession.put .sentinel
      { StreamSession.start.receive.take (.chunk 0) [] with handler := .leaving }).Progress :=
  progress_of_attended <|
    .step (.step (.step (.step (.step (.refl StreamSession.start)
      (.request rfl) trivial)
      (.receive rfl) (fun hended => nomatch hended))
      (.take rfl rfl) trivial)
      (.leave rfl) trivial)
      (.teardown rfl) (fun hended => nomatch hended)

/-- The client pauses until the thread's wait expires, and then sends a chunk. -/
def paused : StreamSession :=
  StreamSession.receive { StreamSession.start.endThread with orphan := true }

/-- The coroutine that was left over takes the chunk, and the session is torn down. -/
def unheard : StreamSession :=
  { StreamSession.put .sentinel { paused with handler := .leaving, queue := [], orphan := false }
    with handler := .stopped, loopEnded := true }

theorem unheard_reached : StreamRun anyhow .start unheard :=
  .step (.step (.step (.step (.step (.step (.step (.refl StreamSession.start)
    (.request rfl) trivial)
    (.expired rfl) trivial)
    (.receive rfl) trivial)
    (.leave rfl) trivial)
    (.takeOrphan rfl rfl) trivial)
    (.teardown rfl) trivial)
    (.join rfl) trivial

/-- The chunk was not decoded, and no error was sent. -/
theorem audio_unheard : ¬ ∀ s : StreamSession, StreamRun anyhow .start s → s.Progress := by
  intro h
  have hheard := (h unheard unheard_reached).heard rfl 0 (by decide)
  exact absurd hheard (by decide)

end Dalston.Realtime
