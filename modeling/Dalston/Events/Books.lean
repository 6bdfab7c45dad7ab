import Dalston.Events.Duties
import Dalston.Events.Pending

/-!
# The pending list and the log

The invariant of the event store, and how what the consumer holds agrees with
it. A message that is pending and not held was left there by a retryable failure,
or by an earlier life of the consumer.

## Implementation notes

Each effect of the consumer has two lemmas: what it keeps of the store, and what
the consumer holds after it.
-/

namespace Dalston.Events

open Foundation Model

namespace Record

def isStart : Record → Bool
  | started => true
  | _ => false

/-- The record is a dispatch of the message. -/
def dispatches (id : MessageId) : Record → Bool
  | dispatched id' _ _ => id' = id
  | _ => false

/-- The message whose dispatch has failed and cannot be retried. -/
def fatal? : Record → Option MessageId
  | dispatched id _ outcome => if outcome.failure.any (!·.retryable) then some id else none
  | _ => none

/-- The message a record is about. -/
def subject? : Record → Option MessageId
  | dispatched id _ _ | deadLettered id => some id
  | started => none

end Record

def DeadLettered (s : EventStore) (id : MessageId) : Prop :=
  ∃ entry ∈ s.dlq, entry.sourceMessageId = id

/-- The handler has succeeded, or a copy was added to the dead-letter stream. -/
def Finished (s : EventStore) (id : MessageId) : Prop :=
  (∃ n outcome, Record.dispatched id n outcome ∈ s.log ∧ outcome.failure = none) ∨
    DeadLettered s id

/-- The records since the consumer has started, the latest one first. -/
def sinceStart (s : EventStore) : List Record := s.log.takeWhile fun r => !r.isStart

/-- How often the message was dispatched since the consumer has started. -/
def dispatches (s : EventStore) (id : MessageId) : Nat :=
  (sinceStart s).countP (Record.dispatches id)

/-- After a failure that cannot be retried comes the copy, if not a new start. -/
def Buries (later earlier : Record) : Prop :=
  ∀ id, earlier.fatal? = some id → later = .started ∨ later = .deadLettered id

/-- The last delivery of the message has failed in a way that may be retried. -/
def Retried (settings : EventSettings) (s : EventStore) (id : MessageId) (n : Nat) : Prop :=
  n < settings.eventsMaxDeliveries ∧ ∃ outcome failure,
    Record.dispatched id n outcome ∈ sinceStart s ∧ outcome.failure = some failure ∧
      failure.retryable = true

/-- A held message may be dispatched once more. -/
def Due (settings : EventSettings) (s : EventStore) (x : MessageId × Nat) : Prop :=
  dispatches s x.1 + 1 ≤ x.2 ∧ (dispatches s x.1 = 0 ∨ x.2 ≤ settings.eventsMaxDeliveries)

/-- Why a pending message is not held. -/
def Waiting (settings : EventSettings) (s : EventStore) (x : MessageId × Nat) : Prop :=
  (x.1 ∉ s.recent ∧ dispatches s x.1 = 0) ∨
    Retried settings s x.1 x.2 ∧ dispatches s x.1 ≤ x.2

/-- The stream, the pending list and the log. -/
structure Books (settings : EventSettings) (s : EventStore) : Prop where
  ordered : (s.stream.map (·.id)).Pairwise (· < ·)
  below : ∀ m ∈ s.stream, m.id < s.nextId
  offered : s.delivered ≤ s.nextId
  queue : (s.counts.map (·.1)).Pairwise (· < ·)
  queued : ∀ x ∈ s.counts, x.1 < s.delivered ∧ 1 ≤ x.2
  present : s.Present
  accounted : ∀ id, id < s.nextId → (s.delivered ≤ id ∧ ∃ m ∈ s.stream, m.id = id) ∨
    (∃ n, (id, n) ∈ s.counts) ∨ Finished s id
  known : ∀ r ∈ s.log, ∀ id, r.subject? = some id → id < s.delivered
  letters : ∀ entry ∈ s.dlq, entry.sourceMessageId < s.delivered
  recent : ∀ id ∈ s.recent, id < s.delivered
  buried : s.log.IsChain Buries
  limited : ∀ id, dispatches s id ≤ settings.eventsMaxDeliveries

/-- What the consumer holds, against the pending list and the log. -/
structure Working (settings : EventSettings) (s : EventStore) (l : Duty) : Prop where
  nodup : l.held.Nodup
  events : ∀ event ∈ l.events, (event.messageId, event.deliveryCount) ∈ s.counts ∧
    Due settings s (event.messageId, event.deliveryCount)
  page : ∀ m ∈ l.page, ∃ n, (m.id, n) ∈ s.counts ∧ Due settings s (m.id, n)
  others : ∀ x ∈ s.counts, x.1 ∉ l.held → Waiting settings s x
  cursor : ∀ cursor, l.cursor? = some cursor → ∀ id ∈ l.held, id < cursor
  current : ∀ event, l.current = some event → ∃ n, (event.messageId, n) ∈ s.counts
  closing : ∀ event events, l = .closing event events → Finished s event.messageId
  settled : ∀ r ∈ s.log.head?, ∀ id, r.fatal? = some id →
    ∃ event events, l = .burying event events ∧ event.messageId = id

section Books

variable {settings : EventSettings} {s s' : EventStore} {l : Duty} {id : MessageId} {r : Record}
  {event : DurableEventEnvelope} {events : List DurableEventEnvelope}

theorem Finished.mono (h : Finished s id) (hlog : ∀ r ∈ s.log, r ∈ s'.log)
    (hdlq : ∀ entry ∈ s.dlq, entry ∈ s'.dlq) : Finished s' id := by
  rcases h with ⟨n, outcome, hmem, hok⟩ | ⟨entry, hmem, hid⟩
  · exact Or.inl ⟨n, outcome, hlog _ hmem, hok⟩
  · exact Or.inr ⟨entry, hdlq entry hmem, hid⟩

theorem Books.nodup (h : Books settings s) : (s.counts.map (·.1)).Nodup :=
  h.queue.imp Nat.ne_of_lt

/-- A pending message has one delivery count. -/
theorem Books.unique (h : Books settings s) {n n' : Nat} (hn : (id, n) ∈ s.counts)
    (hn' : (id, n') ∈ s.counts) : n = n' :=
  (EventStore.deliveryCount_of_mem h.nodup hn).symm.trans
    (EventStore.deliveryCount_of_mem h.nodup hn')

theorem sinceStart_cons (hr : r.isStart = false) (dlq : List DlqEntry) :
    sinceStart { s with log := r :: s.log, dlq } = r :: sinceStart s := by
  simp [sinceStart, hr]

theorem dispatches_cons (hr : r.isStart = false) (dlq : List DlqEntry) :
    dispatches { s with log := r :: s.log, dlq } id =
      dispatches s id + (r.dispatches id).toNat := by
  rw [dispatches, sinceStart_cons hr]
  cases h : r.dispatches id <;> simp [dispatches, h]

theorem Duty.of_ready (h : l.ready = some events) :
    l.events = events ∧ l.page = [] ∧ l.held = events.map (·.messageId) ∧
      ∀ event events, l ≠ .burying event events ∧ l ≠ .closing event events := by
  rcases l with _ | ⟨cursor, _ | ⟨m, page⟩, _⟩ | _ | ⟨_, _⟩ | ⟨_, _⟩ <;>
    simp [ready] at h <;> subst h <;> simp [Duty.events, Duty.page, held, current]

/-- A record is added. -/
theorem Books.logged (h : Books settings s) (hr : r.isStart = false)
    (hsubject : ∀ id, r.subject? = some id → id < s.delivered)
    (hburies : ∀ y ∈ s.log.head?, Buries r y)
    (hlimited : ∀ id, dispatches s id + (r.dispatches id).toNat ≤ settings.eventsMaxDeliveries)
    {dlq : List DlqEntry} (hdlq : ∀ entry ∈ s.dlq, entry ∈ dlq)
    (hletters : ∀ entry ∈ dlq, entry.sourceMessageId < s.delivered) :
    Books settings { s with log := r :: s.log, dlq } := by
  constructor
  case ordered => exact h.ordered
  case below => exact h.below
  case offered => exact h.offered
  case queue => exact h.queue
  case queued => exact h.queued
  case present => exact h.present
  case accounted =>
    intro id hid
    rcases h.accounted id hid with hnew | hpending | hfinished
    · exact Or.inl hnew
    · exact Or.inr (Or.inl hpending)
    · exact Or.inr (Or.inr (hfinished.mono (fun _ => List.mem_cons_of_mem r) hdlq))
  case known =>
    intro r' hr' id hid
    rcases List.mem_cons.mp hr' with rfl | hr'
    · exact hsubject id hid
    · exact h.known r' hr' id hid
  case letters => exact hletters
  case recent => exact h.recent
  case buried => exact List.isChain_cons.mpr ⟨hburies, h.buried⟩
  case limited =>
    intro id
    rw [dispatches_cons hr]
    exact hlimited id

/-- What holds of a message stays true when a record of another one is added. -/
theorem Due.logged {x : MessageId × Nat} (h : Due settings s x) (hr : r.isStart = false)
    (hother : r.dispatches x.1 = false) (dlq : List DlqEntry) :
    Due settings { s with log := r :: s.log, dlq } x := by
  rw [Due, dispatches_cons hr, hother]
  exact h

theorem Waiting.logged {x : MessageId × Nat} (h : Waiting settings s x) (hr : r.isStart = false)
    (hother : r.dispatches x.1 = false) (dlq : List DlqEntry) :
    Waiting settings { s with log := r :: s.log, dlq } x := by
  rw [Waiting, dispatches_cons hr, hother]
  rcases h with hnew | ⟨⟨hlt, outcome, failure, hmem, hfailure⟩, hle⟩
  · exact Or.inl hnew
  · right
    refine ⟨⟨hlt, outcome, failure, ?_, hfailure⟩, hle⟩
    rw [sinceStart_cons hr]
    exact List.mem_cons_of_mem r hmem

theorem Working.unsettled (h : Working settings s l) (hready : l.ready = some events) :
    ∀ y ∈ s.log.head?, ∀ id, y.fatal? ≠ some id := by
  intro y hy id hfatal
  obtain ⟨event, rest, hl, _⟩ := h.settled y hy id hfatal
  exact ((Duty.of_ready hready).2.2.2 event rest).1 hl

theorem buries_of_unsettled (h : ∀ y ∈ s.log.head?, ∀ id, y.fatal? ≠ some id) (r : Record) :
    ∀ y ∈ s.log.head?, Buries r y :=
  fun y hy id hfatal => absurd hfatal (h y hy id)

/-- The dispatch of a held event is recorded. -/
theorem Books.dispatched (hb : Books settings s) (h : Working settings s l)
    (hready : l.ready = some (event :: events)) :
    Books settings ((EventEffect.dispatch event).apply s) := by
  have hevents := (Duty.of_ready hready).1
  obtain ⟨hmem, hdue⟩ := h.events event (by simp [hevents])
  have hpositive := settings.positive
  have hcount : dispatches s event.messageId + 1 ≤ event.deliveryCount := hdue.1
  have hmax : dispatches s event.messageId = 0 ∨
      event.deliveryCount ≤ settings.eventsMaxDeliveries := hdue.2
  refine hb.logged rfl ?_ (buries_of_unsettled (h.unsettled hready) _) ?_ (fun _ he => he)
    hb.letters
  · intro id hid
    obtain rfl := Option.some.inj hid
    exact (hb.queued _ hmem).1
  · intro id
    have hlimited := hb.limited id
    by_cases hid : event.messageId = id
    · subst hid
      simp only [Record.dispatches, decide_true, Bool.toNat_true]
      omega
    · simpa [Record.dispatches, hid] using hlimited

/-- The consumer has dispatched the first of its events. -/
theorem Working.dispatched (hb : Books settings s) (h : Working settings s l)
    (hready : l.ready = some (event :: events)) {l' : Duty} (hevents : l'.events = events)
    (hpage : l'.page = []) (hcursor : l'.cursor? = none)
    (hcurrent : l'.current = some event ∨ l'.current = none ∧
      Retried settings ((EventEffect.dispatch event).apply s) event.messageId event.deliveryCount)
    (hclosing : ∀ e es, l' = .closing e es →
      Finished ((EventEffect.dispatch event).apply s) e.messageId)
    (hsettled : ∀ id, (Record.dispatched event.messageId event.deliveryCount s.answer).fatal? =
      some id → ∃ e es, l' = .burying e es ∧ e.messageId = id) :
    Working settings ((EventEffect.dispatch event).apply s) l' := by
  obtain ⟨hold, _, hheld, _⟩ := Duty.of_ready hready
  obtain ⟨hmem, hdue⟩ := h.events event (by simp [hold])
  have hnodup := h.nodup
  rw [hheld, List.map_cons, List.nodup_cons] at hnodup
  have hother {id : MessageId} (hne : id ≠ event.messageId) :
      (Record.dispatched event.messageId event.deliveryCount s.answer).dispatches id = false := by
    simp [Record.dispatches, Ne.symm hne]
  constructor
  case nodup =>
    rw [Duty.held, hevents, hpage]
    rcases hcurrent with hsome | ⟨hnone, _⟩
    · simpa [hsome] using hnodup
    · simpa [hnone] using hnodup.2
  case events =>
    intro e he
    rw [hevents] at he
    obtain ⟨hmem', hdue'⟩ := h.events e (by simp [hold, he])
    have hne : e.messageId ≠ event.messageId := by
      intro heq
      exact hnodup.1 (heq ▸ List.mem_map_of_mem he)
    exact ⟨hmem', hdue'.logged rfl (hother hne) s.dlq⟩
  case page =>
    rw [hpage]
    intro m hm
    cases hm
  case others =>
    intro x hx hnot
    by_cases hid : x.1 = event.messageId
    · -- the event itself is left pending only to be retried
      rcases hcurrent with hsome | ⟨_, hretried⟩
      · exact absurd (by simp [Duty.held, hsome, hid]) hnot
      · right
        obtain ⟨id, n⟩ := x
        obtain rfl : id = event.messageId := hid
        obtain rfl := hb.unique hx hmem
        have hcount : dispatches ((EventEffect.dispatch event).apply s) event.messageId =
            dispatches s event.messageId + (Record.dispatches event.messageId
              (.dispatched event.messageId event.deliveryCount s.answer)).toNat :=
          dispatches_cons rfl s.dlq
        rw [Record.dispatches, decide_eq_true rfl] at hcount
        exact ⟨hretried, hcount ▸ hdue.1⟩
    · apply (h.others x hx _).logged rfl (hother hid) s.dlq
      rw [hheld, List.map_cons, List.mem_cons, not_or]
      refine ⟨hid, fun hmem' => hnot ?_⟩
      simp only [Duty.held, hevents, hpage, List.mem_append]
      exact Or.inr (Or.inl hmem')
  case cursor =>
    rw [hcursor]
    intro cursor hc
    cases hc
  case current =>
    intro e he
    rcases hcurrent with hsome | ⟨hnone, _⟩
    · rw [hsome] at he
      obtain rfl := Option.some.inj he
      exact ⟨_, hmem⟩
    · rw [hnone] at he
      cases he
  case closing => exact hclosing
  case settled =>
    intro r hr id hid
    obtain rfl := Option.some.inj hr
    exact hsettled id hid

/-- The event in hand is copied to the dead-letter stream. -/
theorem Books.buriedEvent (hb : Books settings s) (h : Working settings s l)
    (hl : l.ready = some (event :: events) ∨ l = .burying event events)
    (hpending : ∃ n, (event.messageId, n) ∈ s.counts) {entry : DlqEntry}
    (hentry : entry.sourceMessageId = event.messageId) :
    Books settings ((EventEffect.xaddDlq entry).apply s) := by
  obtain ⟨n, hmem⟩ := hpending
  have hlt : entry.sourceMessageId < s.delivered := by
    rw [hentry]
    exact (hb.queued _ hmem).1
  refine hb.logged rfl ?_ ?_ ?_ ?_ ?_
  · intro id hid
    obtain rfl := Option.some.inj hid
    exact hlt
  · intro y hy id hfatal
    rcases hl with hready | rfl
    · exact absurd hfatal (h.unsettled hready y hy id)
    · obtain ⟨e, es, heq, rfl⟩ := h.settled y hy id hfatal
      cases heq
      exact Or.inr (by rw [hentry])
  · intro id
    exact hb.limited id
  · intro e he
    exact List.mem_append_left _ he
  · intro e he
    rcases List.mem_append.mp he with he | he
    · exact hb.letters e he
    · rw [List.mem_singleton.mp he]
      exact hlt

/-- The consumer has copied the event, and acknowledges it next. -/
theorem Working.buriedEvent (h : Working settings s l)
    (hl : l.ready = some (event :: events) ∨ l = .burying event events) {entry : DlqEntry}
    (hentry : entry.sourceMessageId = event.messageId) :
    Working settings ((EventEffect.xaddDlq entry).apply s) (.closing event events) := by
  have hheld : l.held = (Duty.closing event events).held := by
    rcases hl with hready | rfl
    · rw [(Duty.of_ready hready).2.2.1]
      simp [Duty.held, Duty.current, Duty.events, Duty.page]
    · rfl
  have hevents : ∀ e ∈ events, e ∈ l.events := by
    intro e he
    rcases hl with hready | rfl
    · rw [(Duty.of_ready hready).1]
      exact List.mem_cons_of_mem event he
    · exact he
  have hnone (id : MessageId) : (Record.deadLettered entry.sourceMessageId).dispatches id = false :=
    rfl
  constructor
  case nodup => exact hheld ▸ h.nodup
  case events =>
    intro e he
    obtain ⟨hmem, hdue⟩ := h.events e (hevents e he)
    exact ⟨hmem, hdue.logged rfl (hnone _) (s.dlq ++ [entry])⟩
  case page =>
    intro m hm
    cases hm
  case others =>
    intro x hx hnot
    exact (h.others x hx (hheld ▸ hnot)).logged rfl (hnone _) (s.dlq ++ [entry])
  case cursor =>
    intro cursor hc
    cases hc
  case current =>
    intro e he
    obtain rfl := Option.some.inj he
    rcases hl with hready | rfl
    · exact ⟨_, (h.events event (by simp [(Duty.of_ready hready).1])).1⟩
    · exact h.current event rfl
  case closing =>
    intro e es heq
    cases heq
    exact Or.inr ⟨entry, List.mem_append_right _ List.mem_cons_self, hentry⟩
  case settled =>
    intro r hr id hid
    obtain rfl := Option.some.inj hr
    cases hid

/-- A finished message is acknowledged. -/
theorem Books.acknowledged (hb : Books settings s) (hfinished : Finished s id) :
    Books settings ((EventEffect.xack id).apply s) := by
  have hsub : ∀ x ∈ ((EventEffect.xack id).apply s).counts, x ∈ s.counts := by
    rw [EventStore.counts_xack]
    exact fun x hx => (List.mem_filter.mp hx).1
  constructor
  case ordered => exact hb.ordered
  case below => exact hb.below
  case offered => exact hb.offered
  case queue =>
    rw [EventStore.counts_xack]
    exact hb.queue.sublist (List.filter_sublist.map _)
  case queued => exact fun x hx => hb.queued x (hsub x hx)
  case present => exact fun x hx => hb.present x (hsub x hx)
  case accounted =>
    intro other hother
    rcases hb.accounted other hother with hnew | ⟨n, hmem⟩ | hold
    · exact Or.inl hnew
    · by_cases heq : other = id
      · subst heq
        exact Or.inr (Or.inr hfinished)
      · right
        left
        refine ⟨n, ?_⟩
        rw [EventStore.counts_xack]
        exact List.mem_filter.mpr ⟨hmem, by simpa using heq⟩
    · exact Or.inr (Or.inr hold)
  case known => exact hb.known
  case letters => exact hb.letters
  case recent => exact hb.recent
  case buried => exact hb.buried
  case limited => exact hb.limited

theorem Working.acknowledged (h : Working settings s (.closing event events)) :
    Working settings ((EventEffect.xack event.messageId).apply s) (.working events) := by
  have hnodup := h.nodup
  simp only [Duty.held, Duty.current, Duty.events, Duty.page, Option.map_some, Option.toList_some,
    List.map_nil, List.append_nil, List.singleton_append, List.nodup_cons] at hnodup
  have hheld : (Duty.working events).held = events.map (·.messageId) := by
    simp [Duty.held, Duty.current, Duty.events, Duty.page]
  have hkept {x : MessageId × Nat} :
      x ∈ ((EventEffect.xack event.messageId).apply s).counts ↔
        x ∈ s.counts ∧ x.1 ≠ event.messageId := by
    simp [EventStore.counts_xack]
  constructor
  case nodup =>
    rw [hheld]
    exact hnodup.2
  case events =>
    intro e he
    obtain ⟨hmem, hdue⟩ := h.events e he
    refine ⟨hkept.mpr ⟨hmem, ?_⟩, hdue⟩
    intro heq
    exact hnodup.1 (List.mem_map.mpr ⟨e, he, heq⟩)
  case page =>
    intro m hm
    cases hm
  case others =>
    intro x hx hnot
    obtain ⟨hmem, hne⟩ := hkept.mp hx
    refine h.others x hmem ?_
    rw [hheld] at hnot
    simpa [Duty.held, Duty.current, Duty.events, Duty.page, hne] using hnot
  case cursor =>
    intro cursor hc
    cases hc
  case current =>
    intro e he
    cases he
  case closing =>
    intro e es heq
    cases heq
  case settled =>
    intro r hr id hid
    obtain ⟨e, es, heq, _⟩ := h.settled r hr id hid
    cases heq

/-- The delivery count of a claimed message is looked up. -/
theorem Working.looked (hb : Books settings s) {cursor : Option MessageId} {m : StreamEntry}
    {page : List StreamEntry} (h : Working settings s (.claiming cursor (m :: page) events)) :
    Working settings s (.claiming cursor page
      (events ++ [parseEnvelope m.id m.fields (s.deliveryCount m.id)])) := by
  obtain ⟨n, hmem, hdue⟩ := h.page m List.mem_cons_self
  have hcount : s.deliveryCount m.id = n := EventStore.deliveryCount_of_mem hb.nodup hmem
  have hpositive : max n 1 = n := max_eq_left (hb.queued _ hmem).2
  have hparsed : (parseEnvelope m.id m.fields (s.deliveryCount m.id)).messageId = m.id ∧
      (parseEnvelope m.id m.fields (s.deliveryCount m.id)).deliveryCount = n := by
    rw [hcount, ← hpositive]
    simp only [parseEnvelope]
    split <;> simp
  have hheld : (Duty.claiming cursor page
      (events ++ [parseEnvelope m.id m.fields (s.deliveryCount m.id)])).held =
        (Duty.claiming cursor (m :: page) events).held := by
    simp [Duty.held, Duty.current, Duty.events, Duty.page, hparsed.1]
  constructor
  case nodup => exact hheld ▸ h.nodup
  case events =>
    intro e he
    rcases List.mem_append.mp he with he | he
    · exact h.events e he
    · rw [List.mem_singleton.mp he, hparsed.1, hparsed.2]
      exact ⟨hmem, hdue⟩
  case page => exact fun m' hm' => h.page m' (List.mem_cons_of_mem m hm')
  case others => exact fun x hx hnot => h.others x hx (hheld ▸ hnot)
  case cursor => exact fun c hc => hheld ▸ h.cursor c hc
  case current =>
    intro e he
    cases he
  case closing =>
    intro e es heq
    cases heq
  case settled =>
    intro r hr id hid
    obtain ⟨e, es, heq, _⟩ := h.settled r hr id hid
    cases heq

theorem Duty.held_of_claims {cursor : MessageId} (h : l.Claims cursor events) :
    l.events = events ∧ l.page = [] ∧ l.held = events.map (·.messageId) ∧
      (∀ event events, l ≠ .burying event events ∧ l ≠ .closing event events) ∧
      (l.cursor? = some cursor ∨ events = []) := by
  rcases h with rfl | ⟨rfl, hready⟩
  · simp [Duty.events, Duty.page, held, current, cursor?]
  · obtain ⟨hevents, hpage, hheld, hnot⟩ := of_ready hready
    exact ⟨hevents, hpage, hheld, hnot, Or.inr rfl⟩

section Claim

variable {minIdleMs count : Nat} {cursor : MessageId}

/-- The entries of the pending list after a claim. -/
theorem mem_counts_xautoclaim (hb : Books settings s) {x : MessageId × Nat} :
    x ∈ ((EventEffect.xautoclaim minIdleMs count cursor).apply s).counts ↔
      (x.1 ∈ (s.autoclaim minIdleMs count cursor).claimed ∧ ∃ n, (x.1, n) ∈ s.counts ∧ x.2 = n + 1) ∨
        x.1 ∉ (s.autoclaim minIdleMs count cursor).claimed ∧ x ∈ s.counts := by
  obtain ⟨id, n⟩ := x
  rw [EventStore.counts_xautoclaim hb.present, List.mem_map]
  constructor
  · rintro ⟨⟨id', n'⟩, hmem, heq⟩
    by_cases hin : id' ∈ (s.autoclaim minIdleMs count cursor).claimed
    · rw [if_pos hin] at heq
      cases heq
      exact Or.inl ⟨hin, n', hmem, rfl⟩
    · rw [if_neg hin] at heq
      cases heq
      exact Or.inr ⟨hin, hmem⟩
  · rintro (⟨hin, n', hmem, rfl⟩ | ⟨hin, hmem⟩)
    · exact ⟨(id, n'), hmem, if_pos hin⟩
    · exact ⟨(id, n), hmem, if_neg hin⟩

theorem Books.claimed (hb : Books settings s) :
    Books settings ((EventEffect.xautoclaim minIdleMs count cursor).apply s) := by
  have hids : ((EventEffect.xautoclaim minIdleMs count cursor).apply s).counts.map (·.1) =
      s.counts.map (·.1) := by
    rw [EventStore.counts_xautoclaim hb.present, List.map_map]
    apply List.map_congr_left
    intro x _
    simp only [Function.comp_apply]
    split <;> rfl
  have hold {x : MessageId × Nat}
      (hx : x ∈ ((EventEffect.xautoclaim minIdleMs count cursor).apply s).counts) :
      ∃ n, (x.1, n) ∈ s.counts ∧ n ≤ x.2 := by
    rcases (mem_counts_xautoclaim hb).mp hx with ⟨_, n, hmem, hn⟩ | ⟨_, hmem⟩
    · exact ⟨n, hmem, by omega⟩
    · exact ⟨x.2, hmem, le_rfl⟩
  constructor
  case ordered => exact hb.ordered
  case below => exact hb.below
  case offered => exact hb.offered
  case queue => exact hids ▸ hb.queue
  case queued =>
    intro x hx
    obtain ⟨n, hmem, hle⟩ := hold hx
    have hqueued := hb.queued _ hmem
    exact ⟨hqueued.1, Nat.le_trans hqueued.2 hle⟩
  case present =>
    intro x hx
    obtain ⟨n, hmem, _⟩ := hold hx
    obtain ⟨m, hm, hid⟩ := hb.present (x.1, n) hmem
    exact ⟨m, hm, hid⟩
  case accounted =>
    intro id hid
    rcases hb.accounted id hid with hnew | ⟨n, hmem⟩ | hfinished
    · exact Or.inl hnew
    · right
      left
      by_cases hin : id ∈ (s.autoclaim minIdleMs count cursor).claimed
      · exact ⟨n + 1, (mem_counts_xautoclaim hb).mpr (Or.inl ⟨hin, n, hmem, rfl⟩)⟩
      · exact ⟨n, (mem_counts_xautoclaim hb).mpr (Or.inr ⟨hin, hmem⟩)⟩
    · exact Or.inr (Or.inr hfinished)
  case known => exact hb.known
  case letters => exact hb.letters
  case recent =>
    intro id hid
    rcases List.mem_append.mp hid with hnew | hid
    · obtain ⟨n, hmem⟩ := (EventStore.mem_claimed hnew).2
      exact (hb.queued _ hmem).1
    · exact hb.recent id hid
  case buried => exact hb.buried
  case limited => exact hb.limited

/-- A message that was left pending may be dispatched once more after a claim. -/
theorem Waiting.due {n : Nat} (h : Waiting settings s (id, n)) :
    Due settings ((EventEffect.xautoclaim minIdleMs count cursor).apply s) (id, n + 1) := by
  rcases h with ⟨_, hzero⟩ | ⟨⟨hlt, _⟩, hle⟩
  · refine ⟨?_, Or.inl hzero⟩
    change dispatches s id + 1 ≤ n + 1
    have hnone : dispatches s id = 0 := hzero
    omega
  · exact ⟨Nat.succ_le_succ hle, Or.inr hlt⟩

/-- The consumer holds what it has claimed. -/
theorem Working.claimed (hb : Books settings s) (h : Working settings s l)
    (hl : l.Claims cursor events) :
    Working settings ((EventEffect.xautoclaim minIdleMs count cursor).apply s)
      (s.afterClaim minIdleMs count cursor events) := by
  obtain ⟨hevents, hpage, hheld, hnot, hcursor⟩ := Duty.held_of_claims hl
  have hids : (s.claimedEntries minIdleMs count cursor).map (·.id) =
      (s.autoclaim minIdleMs count cursor).claimed := EventStore.ids_claimedEntries hb.present
  -- what is held already lies before the cursor
  have hfresh : ∀ id ∈ (s.autoclaim minIdleMs count cursor).claimed,
      id ∉ events.map (·.messageId) := by
    intro id hid hmem
    have hle := (EventStore.mem_claimed hid).1
    rcases hcursor with hcursor | rfl
    · exact absurd (h.cursor cursor hcursor id (hheld ▸ hmem)) (not_lt.mpr hle)
    · cases hmem
  have hnew : (s.afterClaim minIdleMs count cursor events).events = events ∧
      (s.afterClaim minIdleMs count cursor events).page =
        s.claimedEntries minIdleMs count cursor ∧
      (s.afterClaim minIdleMs count cursor events).current = none := by
    rw [EventStore.afterClaim]
    split
    · rename_i hempty
      exact ⟨rfl, (List.isEmpty_iff.mp hempty).symm, rfl⟩
    · exact ⟨rfl, rfl, rfl⟩
  have hheld' : (s.afterClaim minIdleMs count cursor events).held =
      events.map (·.messageId) ++ (s.autoclaim minIdleMs count cursor).claimed := by
    rw [Duty.held, hnew.1, hnew.2.1, hnew.2.2, hids]
    rfl
  have hsorted : (s.autoclaim minIdleMs count cursor).claimed.Pairwise (· < ·) := by
    have hpending : (s.pending.map (·.id)).Pairwise (· < ·) := by
      simpa [EventStore.counts, Function.comp_def] using hb.queue
    exact (hpending.sublist (List.filter_sublist.map _)).sublist scanPending_claimed
  constructor
  case nodup =>
    rw [hheld', List.nodup_append']
    refine ⟨hheld ▸ h.nodup, hsorted.imp Nat.ne_of_lt, ?_⟩
    intro id hid hclaimed
    exact hfresh id hclaimed hid
  case events =>
    intro e he
    rw [hnew.1] at he
    obtain ⟨hmem, hdue⟩ := h.events e (hevents ▸ he)
    refine ⟨(mem_counts_xautoclaim hb).mpr (Or.inr ⟨?_, hmem⟩), hdue⟩
    exact fun hin => hfresh _ hin (List.mem_map_of_mem he)
  case page =>
    intro m hm
    rw [hnew.2.1] at hm
    have hin : m.id ∈ (s.autoclaim minIdleMs count cursor).claimed :=
      hids ▸ List.mem_map_of_mem hm
    obtain ⟨n, hmem⟩ := (EventStore.mem_claimed hin).2
    refine ⟨n + 1, (mem_counts_xautoclaim hb).mpr (Or.inl ⟨hin, n, hmem, rfl⟩), ?_⟩
    exact (h.others _ hmem (hheld ▸ hfresh _ hin)).due
  case others =>
    intro x hx hout
    rw [hheld', List.mem_append, not_or] at hout
    rcases (mem_counts_xautoclaim hb).mp hx with ⟨hin, _⟩ | ⟨_, hmem⟩
    · exact absurd hin hout.2
    · rcases h.others x hmem (hheld ▸ hout.1) with ⟨hold, hzero⟩ | hretried
      · left
        refine ⟨?_, hzero⟩
        intro hrecent
        rcases List.mem_append.mp hrecent with hin | hin
        · exact hout.2 hin
        · exact hold hin
      · exact Or.inr hretried
  case cursor =>
    intro next hnext id hid
    have hnext' : (s.autoclaim minIdleMs count cursor).cursor = some next := by
      rw [EventStore.afterClaim] at hnext
      split at hnext
      · cases hnext
      · exact hnext
    have hpending : ((s.pending.filter (cursor ≤ ·.id)).map (·.id)).Pairwise (· < ·) := by
      have hall : (s.pending.map (·.id)).Pairwise (· < ·) := by
        simpa [EventStore.counts, Function.comp_def] using hb.queue
      exact hall.sublist (List.filter_sublist.map _)
    rw [hheld', List.mem_append] at hid
    rcases hid with hold | hin
    · obtain ⟨p, hp, hpid⟩ := scanPending_cursor_mem hnext'
      have hle : cursor ≤ p.id := by simpa using (List.mem_filter.mp hp).2
      rcases hcursor with hcursor | rfl
      · have hlt := h.cursor cursor hcursor id (hheld ▸ hold)
        rw [← hpid]
        exact Nat.lt_of_lt_of_le hlt hle
      · cases hold
    · exact scanPending_cursor hpending hnext' id hin
  case current =>
    intro e he
    rw [hnew.2.2] at he
    cases he
  case closing =>
    intro e es heq
    have hcurrent := hnew.2.2
    rw [heq] at hcurrent
    cases hcurrent
  case settled =>
    intro r hr id hid
    obtain ⟨e, es, heq, _⟩ := h.settled r hr id hid
    exact absurd heq (hnot e es).1

end Claim

section Read

variable {count : Nat}

/-- A message that was not delivered was not dispatched. -/
theorem Books.dispatches_eq_zero (hb : Books settings s) (h : s.delivered ≤ id) :
    dispatches s id = 0 := by
  rw [dispatches, List.countP_eq_zero]
  intro r hr hdispatches
  have hmem : r ∈ s.log := (List.takeWhile_sublist _).subset hr
  cases r with
  | started => cases hdispatches
  | deadLettered id' => cases hdispatches
  | dispatched id' n outcome =>
      obtain rfl : id' = id := by simpa [Record.dispatches] using hdispatches
      exact absurd (hb.known _ hmem id' rfl) (not_lt.mpr h)

/-- What is read was not dispatched, and may be. -/
theorem Books.due_new (hb : Books settings s) {m : StreamEntry} (hm : m ∈ s.newEntries count) :
    Due settings ((EventEffect.xreadgroup count).apply s) (m.id, 1) := by
  have hzero : dispatches s m.id = 0 := hb.dispatches_eq_zero (EventStore.mem_newEntries hm).2
  constructor
  · change dispatches s m.id + 1 ≤ 1
    rw [hzero]
  · exact Or.inl hzero

theorem mem_counts_xreadgroup {x : MessageId × Nat} :
    x ∈ ((EventEffect.xreadgroup count).apply s).counts ↔
      x ∈ s.counts ∨ ∃ m ∈ s.newEntries count, (m.id, 1) = x := by
  rw [EventStore.counts_xreadgroup, List.mem_append, List.mem_map]

theorem Books.read (hb : Books settings s) :
    Books settings ((EventEffect.xreadgroup count).apply s) := by
  have hdelivered : ((EventEffect.xreadgroup count).apply s).delivered = s.readUpTo count := rfl
  have hle : s.delivered ≤ s.readUpTo count := EventStore.delivered_le_readUpTo
  constructor
  case ordered => exact hb.ordered
  case below => exact hb.below
  case offered => exact EventStore.readUpTo_le hb.below hb.offered
  case queue =>
    rw [EventStore.counts_xreadgroup, List.map_append, List.pairwise_append, List.map_map]
    refine ⟨hb.queue, EventStore.sorted_newEntries hb.ordered, ?_⟩
    intro id hid id' hid'
    obtain ⟨x, hx, rfl⟩ := List.mem_map.mp hid
    obtain ⟨m, hm, rfl⟩ := List.mem_map.mp hid'
    exact Nat.lt_of_lt_of_le (hb.queued x hx).1 (EventStore.mem_newEntries hm).2
  case queued =>
    intro x hx
    rw [hdelivered]
    rcases mem_counts_xreadgroup.mp hx with hx | ⟨m, hm, rfl⟩
    · obtain ⟨hlt, hone⟩ := hb.queued x hx
      exact ⟨Nat.lt_of_lt_of_le hlt hle, hone⟩
    · exact ⟨EventStore.lt_readUpTo hb.ordered hm, le_rfl⟩
  case present =>
    intro x hx
    rcases mem_counts_xreadgroup.mp hx with hx | ⟨m, hm, rfl⟩
    · exact hb.present x hx
    · exact ⟨m, (EventStore.mem_newEntries hm).1, rfl⟩
  case accounted =>
    intro id hid
    rcases hb.accounted id hid with ⟨hnew, m, hm, rfl⟩ | ⟨n, hmem⟩ | hfinished
    · by_cases hread : s.readUpTo count ≤ m.id
      · exact Or.inl ⟨hread, m, hm, rfl⟩
      · have hmem : m ∈ s.newEntries count :=
          EventStore.mem_newEntries_of_lt hb.ordered hm hnew (Nat.lt_of_not_le hread)
        exact Or.inr (Or.inl ⟨1, mem_counts_xreadgroup.mpr (Or.inr ⟨m, hmem, rfl⟩)⟩)
    · exact Or.inr (Or.inl ⟨n, mem_counts_xreadgroup.mpr (Or.inl hmem)⟩)
    · exact Or.inr (Or.inr hfinished)
  case known => exact fun r hr id hid => Nat.lt_of_lt_of_le (hb.known r hr id hid) hle
  case letters => exact fun entry he => Nat.lt_of_lt_of_le (hb.letters entry he) hle
  case recent =>
    intro id hid
    rcases List.mem_append.mp hid with hnew | hid
    · obtain ⟨m, hm, rfl⟩ := List.mem_map.mp hnew
      exact EventStore.lt_readUpTo hb.ordered hm
    · exact Nat.lt_of_lt_of_le (hb.recent id hid) hle
  case buried => exact hb.buried
  case limited => exact hb.limited

/-- The consumer holds what it has read. -/
theorem Working.read (hb : Books settings s) (h : Working settings s l)
    (hready : l.ready = some []) :
    Working settings ((EventEffect.xreadgroup count).apply s)
      (.working ((s.newEntries count).map fun m => parseEnvelope m.id m.fields 1)) := by
  have hparsed (m : StreamEntry) : (parseEnvelope m.id m.fields 1).messageId = m.id ∧
      (parseEnvelope m.id m.fields 1).deliveryCount = 1 := by
    simp only [parseEnvelope]
    split <;> simp
  have hheld : (Duty.working
      ((s.newEntries count).map fun m => parseEnvelope m.id m.fields 1)).held =
        (s.newEntries count).map (·.id) := by
    simp [Duty.held, Duty.current, Duty.events, Duty.page, (hparsed _).1]
  have hfree : l.held = [] := (Duty.of_ready hready).2.2.1
  constructor
  case nodup =>
    rw [hheld]
    exact (EventStore.sorted_newEntries hb.ordered).imp Nat.ne_of_lt
  case events =>
    intro e he
    obtain ⟨m, hm, rfl⟩ := List.mem_map.mp he
    rw [(hparsed m).1, (hparsed m).2]
    exact ⟨mem_counts_xreadgroup.mpr (Or.inr ⟨m, hm, rfl⟩), hb.due_new hm⟩
  case page =>
    intro m hm
    cases hm
  case others =>
    intro x hx hnot
    rw [hheld] at hnot
    rcases mem_counts_xreadgroup.mp hx with hx | ⟨m, hm, rfl⟩
    · rcases h.others x hx (by simp [hfree]) with ⟨hold, hzero⟩ | hretried
      · left
        refine ⟨?_, hzero⟩
        intro hrecent
        rcases List.mem_append.mp hrecent with hin | hin
        · exact hnot hin
        · exact hold hin
      · exact Or.inr hretried
    · exact absurd (List.mem_map_of_mem hm) hnot
  case cursor =>
    intro cursor hc
    cases hc
  case current =>
    intro e he
    cases he
  case closing =>
    intro e es heq
    cases heq
  case settled =>
    intro r hr id hid
    exact absurd hid (h.unsettled hready r hr id)

end Read

/-- The consumer starts again. -/
theorem Books.started (hb : Books settings s) :
    Books settings (EventEffect.ensureGroup.apply s) := by
  constructor
  case ordered => exact hb.ordered
  case below => exact hb.below
  case offered => exact hb.offered
  case queue => exact hb.queue
  case queued => exact hb.queued
  case present => exact hb.present
  case accounted =>
    intro id hid
    rcases hb.accounted id hid with hnew | hpending | hfinished
    · exact Or.inl hnew
    · exact Or.inr (Or.inl hpending)
    · exact Or.inr (Or.inr (hfinished.mono (fun _ => List.mem_cons_of_mem _) fun _ he => he))
  case known =>
    intro r hr id hid
    rcases List.mem_cons.mp hr with rfl | hr
    · cases hid
    · exact hb.known r hr id hid
  case letters => exact hb.letters
  case recent =>
    intro id hid
    cases hid
  case buried => exact List.isChain_cons.mpr ⟨fun y _ id _ => Or.inl rfl, hb.buried⟩
  case limited => exact fun id => Nat.zero_le _

theorem Working.started : Working settings (EventEffect.ensureGroup.apply s) (.working []) := by
  constructor
  case nodup => exact List.nodup_nil
  case events =>
    intro e he
    cases he
  case page =>
    intro m hm
    cases hm
  case others => exact fun x _ _ => Or.inl ⟨List.not_mem_nil, rfl⟩
  case cursor =>
    intro cursor hc
    cases hc
  case current =>
    intro e he
    cases he
  case closing =>
    intro e es heq
    cases heq
  case settled =>
    intro r hr id hid
    obtain rfl := Option.some.inj hr
    cases hid

/-- What the consumer does keeps the invariant. -/
theorem Books.moved (hb : Books settings s) (h : l = .off ∨ Working settings s l)
    {e : EventEffect} {l' : Duty} (hmove : DutyMove settings l s e l') :
    Books settings (e.apply s) ∧ Working settings (e.apply s) l' := by
  have hworking (hnot : l ≠ .off) : Working settings s l := h.resolve_left hnot
  have hoff {events : List DurableEventEnvelope} (hready : l.ready = some events) : l ≠ .off := by
    rintro rfl
    cases hready
  cases hmove with
  | start => exact ⟨hb.started, .started⟩
  | claim _ _ minIdleMs count cursor events hclaims =>
      have hne : l ≠ .off := by
        rintro rfl
        rcases hclaims with heq | ⟨_, hready⟩
        · cases heq
        · cases hready
      exact ⟨hb.claimed, (hworking hne).claimed hb hclaims⟩
  | look _ cursor m page events =>
      exact ⟨hb, (hworking (by simp)).looked hb⟩
  | read _ _ count hready => exact ⟨hb.read, (hworking (hoff hready)).read hb hready⟩
  | succeed _ _ event events hready hanswer =>
      have hw := hworking (hoff hready)
      refine ⟨hb.dispatched hw hready, hw.dispatched hb hready rfl rfl rfl (Or.inl rfl) ?_ ?_⟩
      · intro e es heq
        cases heq
        exact Or.inl ⟨event.deliveryCount, s.answer, List.mem_cons_self, hanswer⟩
      · intro id hid
        simp [Record.fatal?, hanswer] at hid
  | retry _ _ event events failure hready hanswer hretry =>
      have hw := hworking (hoff hready)
      refine ⟨hb.dispatched hw hready, hw.dispatched hb hready rfl rfl rfl (Or.inr ⟨rfl, ?_⟩) ?_ ?_⟩
      · refine ⟨hretry.2, s.answer, failure, ?_, hanswer, hretry.1⟩
        exact List.mem_cons_self
      · intro e es heq
        cases heq
      · intro id hid
        simp [Record.fatal?, hanswer, hretry.1] at hid
  | fail _ _ event events hready =>
      have hw := hworking (hoff hready)
      refine ⟨hb.dispatched hw hready, hw.dispatched hb hready rfl rfl rfl (Or.inl rfl) ?_ ?_⟩
      · intro e es heq
        cases heq
      · intro id hid
        have heq : event.messageId = id := by
          simp only [Record.fatal?] at hid
          split at hid
          · exact Option.some.inj hid
          · cases hid
        exact ⟨event, events, rfl, heq⟩
  | bury _ _ consumerId event events failure hl =>
      have hne : l ≠ .off := by
        rcases hl with hready | rfl
        · exact hoff hready
        · simp
      have hw := hworking hne
      have hpending : ∃ n, (event.messageId, n) ∈ s.counts := by
        rcases hl with hready | rfl
        · exact ⟨_, (hw.events event (by simp [(Duty.of_ready hready).1])).1⟩
        · exact hw.current event rfl
      exact ⟨hb.buriedEvent hw hl hpending rfl, hw.buriedEvent hl rfl⟩
  | acknowledge _ event events =>
      have hw := hworking (by simp)
      exact ⟨hb.acknowledged (hw.closing event events rfl), hw.acknowledged⟩

/-- What the consumer holds agrees with the pending list and the log only. -/
theorem Working.congr (h : Working settings s l) (hcounts : s'.counts = s.counts)
    (hlog : s'.log = s.log) (hdlq : s'.dlq = s.dlq) (hrecent : s'.recent = s.recent) :
    Working settings s' l := by
  have hsince : sinceStart s' = sinceStart s := by rw [sinceStart, hlog, sinceStart]
  have hdispatches (id : MessageId) : dispatches s' id = dispatches s id := by
    rw [dispatches, hsince, dispatches]
  have hdue {x : MessageId × Nat} (hx : Due settings s x) : Due settings s' x := by
    rw [Due, hdispatches]
    exact hx
  constructor
  case nodup => exact h.nodup
  case events =>
    intro e he
    obtain ⟨hmem, hx⟩ := h.events e he
    exact ⟨hcounts ▸ hmem, hdue hx⟩
  case page =>
    intro m hm
    obtain ⟨n, hmem, hx⟩ := h.page m hm
    exact ⟨n, hcounts ▸ hmem, hdue hx⟩
  case others =>
    intro x hx hnot
    rw [Waiting, Retried, hdispatches, hrecent, hsince]
    exact h.others x (hcounts ▸ hx) hnot
  case cursor => exact h.cursor
  case current =>
    intro e he
    rw [hcounts]
    exact h.current e he
  case closing =>
    intro e es heq
    exact (h.closing e es heq).mono (fun r hr => hlog ▸ hr) fun entry he => hdlq ▸ he
  case settled => exact hlog ▸ h.settled

theorem Books.timePassed (hb : Books settings s) (idleMs : MessageId → Nat) :
    Books settings ((EventEffect.timePasses idleMs).apply s) := by
  have hcounts := EventStore.counts_timePasses (s := s) idleMs
  constructor
  case ordered => exact hb.ordered
  case below => exact hb.below
  case offered => exact hb.offered
  case queue => exact hcounts ▸ hb.queue
  case queued => exact hcounts ▸ hb.queued
  case present => exact fun x hx => hb.present x (hcounts ▸ hx)
  case accounted => exact hcounts ▸ hb.accounted
  case known => exact hb.known
  case letters => exact hb.letters
  case recent => exact hb.recent
  case buried => exact hb.buried
  case limited => exact hb.limited

theorem Books.answered (hb : Books settings s) (outcome : Outcome) :
    Books settings ((EventEffect.answers outcome).apply s) :=
  ⟨hb.ordered, hb.below, hb.offered, hb.queue, hb.queued, hb.present, hb.accounted, hb.known,
    hb.letters, hb.recent, hb.buried, hb.limited⟩

/-- An append keeps the invariant when it removes only what was delivered and acknowledged. -/
theorem Books.appended (hb : Books settings s) (fields : Dict EventText) (trimmed : Nat)
    (hremoved : ∀ m ∈ List.take (s.trims trimmed) (s.stream ++ [⟨s.nextId, fields⟩]),
      m.id < s.delivered ∧ ∀ p ∈ s.pending, p.id ≠ m.id) :
    Books settings ((EventEffect.xadd fields trimmed).apply s) := by
  have hsub : ∀ m ∈ ((EventEffect.xadd fields trimmed).apply s).stream,
      m ∈ s.stream ++ [⟨s.nextId, fields⟩] := fun m hm => (List.drop_sublist _ _).subset hm
  -- an entry is removed, or it stays
  have hstays : ∀ m ∈ s.stream ++ [⟨s.nextId, fields⟩],
      (m.id < s.delivered ∧ ∀ p ∈ s.pending, p.id ≠ m.id) ∨
        m ∈ ((EventEffect.xadd fields trimmed).apply s).stream := by
    intro m hm
    have hsplit : m ∈ List.take (s.trims trimmed) (s.stream ++ [⟨s.nextId, fields⟩]) ++
        List.drop (s.trims trimmed) (s.stream ++ [⟨s.nextId, fields⟩]) :=
      (List.take_append_drop _ _).symm ▸ hm
    exact (List.mem_append.mp hsplit).imp_left (hremoved m)
  constructor
  case ordered =>
    have happended : ((s.stream ++ [(⟨s.nextId, fields⟩ : StreamEntry)]).map (·.id)).Pairwise
        (· < ·) := by
      rw [List.map_append, List.pairwise_append]
      refine ⟨hb.ordered, by simp, ?_⟩
      intro id hid id' hid'
      obtain ⟨m, hm, rfl⟩ := List.mem_map.mp hid
      rw [List.mem_singleton.mp hid']
      exact hb.below m hm
    exact happended.sublist ((List.drop_sublist _ _).map _)
  case below =>
    intro m hm
    rcases List.mem_append.mp (hsub m hm) with hm | hm
    · exact Nat.lt_succ_of_lt (hb.below m hm)
    · rw [List.mem_singleton.mp hm]
      exact Nat.lt_succ_self _
  case offered => exact Nat.le_succ_of_le hb.offered
  case queue => exact hb.queue
  case queued => exact hb.queued
  case present =>
    intro x hx
    obtain ⟨m, hm, hid⟩ := hb.present x hx
    obtain ⟨p, hp, hpid, _⟩ := EventStore.mem_counts.mp hx
    rcases hstays m (List.mem_append_left _ hm) with ⟨_, hnone⟩ | hm
    · exact absurd (hpid.trans hid.symm) (hnone p hp)
    · exact ⟨m, hm, hid⟩
  case accounted =>
    intro id hid
    have hcases : id < s.nextId ∨ id = s.nextId := Nat.lt_succ_iff_lt_or_eq.mp hid
    rcases hcases with hid | rfl
    · rcases hb.accounted id hid with ⟨hnew, m, hm, rfl⟩ | hold
      · rcases hstays m (List.mem_append_left _ hm) with ⟨hlt, _⟩ | hm
        · exact absurd hlt (not_lt.mpr hnew)
        · exact Or.inl ⟨hnew, m, hm, rfl⟩
      · exact Or.inr hold
    · rcases hstays ⟨s.nextId, fields⟩ (by simp) with ⟨hlt, _⟩ | hm
      · exact absurd hlt (not_lt.mpr hb.offered)
      · exact Or.inl ⟨hb.offered, _, hm, rfl⟩
  case known => exact hb.known
  case letters => exact hb.letters
  case recent => exact hb.recent
  case buried => exact hb.buried
  case limited => exact hb.limited

end Books

end Dalston.Events
