import Dalston.Events.Consumer

/-!
# What the consumer holds

Between two effects the consumer holds the messages it has claimed, the events it
is about to process, and the one it is about to copy or to acknowledge. The
protocol says what each effect of the consumer does to them, and every life of
the consumer follows it.
-/

namespace Dalston.Events

open Foundation Model

/-- What the consumer holds. -/
inductive Duty
  | off
  /-- The next page begins at the cursor; of this page the messages are to be looked up. -/
  | claiming (cursor : Option MessageId) (page : List StreamEntry)
      (events : List DurableEventEnvelope)
  | working (events : List DurableEventEnvelope)
  /-- The event is about to be copied to the dead-letter stream. -/
  | burying (event : DurableEventEnvelope) (events : List DurableEventEnvelope)
  /-- The event is about to be acknowledged. -/
  | closing (event : DurableEventEnvelope) (events : List DurableEventEnvelope)

namespace Duty

/-- The events that can be processed now. -/
def ready : Duty → Option (List DurableEventEnvelope)
  | claiming _ [] events | working events => some events
  | _ => none

def events : Duty → List DurableEventEnvelope
  | claiming _ _ events | working events | burying _ events | closing _ events => events
  | off => []

def page : Duty → List StreamEntry
  | claiming _ page _ => page
  | _ => []

/-- The event in the middle of its processing. -/
def current : Duty → Option DurableEventEnvelope
  | burying event _ | closing event _ => some event
  | _ => none

/-- The messages the consumer holds. -/
def held (l : Duty) : List MessageId :=
  (l.current.map (·.messageId)).toList ++ (l.events.map (·.messageId) ++ l.page.map (·.id))

/-- Where the next page begins. -/
def cursor? : Duty → Option MessageId
  | claiming cursor _ _ => cursor
  | _ => none

/-- A claim from the cursor adds to the events. -/
def Claims (l : Duty) (cursor : MessageId) (events : List DurableEventEnvelope) : Prop :=
  l = claiming (some cursor) [] events ∨ events = [] ∧ l.ready = some []

end Duty

/-- What the consumer holds after a claim. -/
def EventStore.afterClaim (s : EventStore) (minIdleMs count : Nat) (cursor : MessageId)
    (events : List DurableEventEnvelope) : Duty :=
  if (s.claimedEntries minIdleMs count cursor).isEmpty then .working events
  else
    .claiming (s.autoclaim minIdleMs count cursor).cursor
      (s.claimedEntries minIdleMs count cursor) events

/-- How the consumer moves. -/
inductive DutyMove (settings : EventSettings) : Duty → EventStore → EventEffect → Duty → Prop
  | start (s : EventStore) : DutyMove settings .off s .ensureGroup (.working [])
  | claim (l : Duty) (s : EventStore) (minIdleMs count : Nat) (cursor : MessageId)
      (events : List DurableEventEnvelope) (h : l.Claims cursor events) :
      DutyMove settings l s (.xautoclaim minIdleMs count cursor)
        (s.afterClaim minIdleMs count cursor events)
  | look (s : EventStore) (cursor : Option MessageId) (m : StreamEntry)
      (page : List StreamEntry) (events : List DurableEventEnvelope) :
      DutyMove settings (.claiming cursor (m :: page) events) s (.xpendingRange m.id)
        (.claiming cursor page
          (events ++ [parseEnvelope m.id m.fields (s.deliveryCount m.id)]))
  | read (l : Duty) (s : EventStore) (count : Nat) (h : l.ready = some []) :
      DutyMove settings l s (.xreadgroup count)
        (.working ((s.newEntries count).map fun m => parseEnvelope m.id m.fields 1))
  | succeed (l : Duty) (s : EventStore) (event : DurableEventEnvelope)
      (events : List DurableEventEnvelope) (h : l.ready = some (event :: events))
      (ha : s.answer.failure = none) :
      DutyMove settings l s (.dispatch event) (.closing event events)
  | retry (l : Duty) (s : EventStore) (event : DurableEventEnvelope)
      (events : List DurableEventEnvelope) (failure : Failure)
      (h : l.ready = some (event :: events)) (ha : s.answer.failure = some failure)
      (hr : failure.retryable = true ∧ event.deliveryCount < settings.eventsMaxDeliveries) :
      DutyMove settings l s (.dispatch event) (.working events)
  | fail (l : Duty) (s : EventStore) (event : DurableEventEnvelope)
      (events : List DurableEventEnvelope) (h : l.ready = some (event :: events)) :
      DutyMove settings l s (.dispatch event) (.burying event events)
  | bury (l : Duty) (s : EventStore) (consumerId : String) (event : DurableEventEnvelope)
      (events : List DurableEventEnvelope) (failure : Failure)
      (h : l.ready = some (event :: events) ∨ l = .burying event events) :
      DutyMove settings l s (.xaddDlq (buildDlqEntry consumerId event failure))
        (.closing event events)
  | acknowledge (s : EventStore) (event : DurableEventEnvelope)
      (events : List DurableEventEnvelope) :
      DutyMove settings (.closing event events) s (.xack event.messageId) (.working events)

section Protocol

variable {settings : EventSettings} {A : Type} {Q : A → Duty → Prop} {l : Duty}

abbrev Keeps (settings : EventSettings) (p : EventOp A) (Q : A → Duty → Prop) (l : Duty) : Prop :=
  p.Follows (DutyMove settings) (fun _ => True) Q l

theorem keeps_emit {e : EventEffect} {next : EventOp A} :
    Keeps settings (emit e >>= fun _ => next) Q l ↔
      ∀ s, True → ∃ l', DutyMove settings l s e l' ∧ Keeps settings next Q l' :=
  Iff.rfl

theorem keeps_readNewEvents {count : Nat} {f : List DurableEventEnvelope → EventOp A} :
    Keeps settings (readNewEvents count >>= f) Q l ↔
      ∀ s, True → ∃ l', DutyMove settings l s (.xreadgroup count) l' ∧
        Keeps settings (f ((s.newEntries count).map fun m => parseEnvelope m.id m.fields 1)) Q l' :=
  Iff.rfl

theorem keeps_parseClaimed (cursor : Option MessageId) (page : List StreamEntry)
    (events : List DurableEventEnvelope) :
    Keeps settings (parseClaimed page events)
      (fun events l => l = .claiming cursor [] events) (.claiming cursor page events) := by
  induction page generalizing events with
  | nil => rfl
  | cons m rest ih =>
      intro s _
      exact ⟨_, .look s cursor m rest events, ih _⟩

theorem keeps_claimStalePendingEvents (minIdleMs count iterations : Nat) {cursor : MessageId}
    {events : List DurableEventEnvelope} (h : l.Claims cursor events) :
    Keeps settings (claimStalePendingEvents minIdleMs count iterations cursor events)
      (fun events l => l.ready = some events) l := by
  induction iterations generalizing cursor events l with
  | zero =>
      rcases h with rfl | ⟨rfl, hready⟩
      · rfl
      · exact hready
  | succ iterations ih =>
      apply Program.follows_perform_bind.mpr
      intro s _
      refine ⟨_, .claim l s minIdleMs count cursor events h, ?_⟩
      rw [EventStore.afterClaim]
      split
      · rfl
      · apply Program.follows_bind.mpr
        apply Program.follows_mono (keeps_parseClaimed _ _ _)
        rintro events' _ rfl
        rcases (s.autoclaim minIdleMs count cursor).cursor with _ | next
        · rfl
        · exact ih (Or.inl rfl)

theorem keeps_decideFailure {consumerId : String} {event : DurableEventEnvelope}
    {events : List DurableEventEnvelope} {failure : Failure}
    (hnot : ¬ (failure.retryable = true ∧ event.deliveryCount < settings.eventsMaxDeliveries))
    (h : l.ready = some (event :: events) ∨ l = .burying event events) :
    Keeps settings (decideFailure settings consumerId event failure)
      (fun _ l => l = .working events) l := by
  rw [decideFailure, if_neg hnot]
  intro s _
  refine ⟨_, .bury l s consumerId event events failure h, ?_⟩
  intro s' _
  exact ⟨_, .acknowledge s' event events, rfl⟩

theorem keeps_processDurableEvent {consumerId : String} {event : DurableEventEnvelope}
    {events : List DurableEventEnvelope} (h : l.ready = some (event :: events)) :
    Keeps settings (processDurableEvent settings consumerId event)
      (fun _ l => l = .working events) l := by
  rcases hreason : event.failureReason with _ | reason
  · simp only [processDurableEvent, hreason]
    apply Program.follows_perform_bind.mpr
    intro s _
    rcases hfailure : s.answer.failure with _ | failure
    · refine ⟨_, .succeed l s event events h hfailure, ?_⟩
      intro s' _
      exact ⟨_, .acknowledge s' event events, rfl⟩
    · by_cases hretry : failure.retryable = true ∧
          event.deliveryCount < settings.eventsMaxDeliveries
      · refine ⟨_, .retry l s event events failure h hfailure hretry, ?_⟩
        rw [decideEvent, decideFailure, if_pos hretry]
        rfl
      · refine ⟨_, .fail l s event events h, ?_⟩
        exact keeps_decideFailure hretry (Or.inr rfl)
  · simp only [processDurableEvent, hreason]
    exact keeps_decideFailure (by simp) (Or.inl h)

theorem keeps_processDurableEvents {consumerId : String} {events : List DurableEventEnvelope}
    (h : l.ready = some events) :
    Keeps settings (processDurableEvents settings consumerId events)
      (fun _ l => l.ready = some []) l := by
  induction events generalizing l with
  | nil => exact h
  | cons event rest ih =>
      apply Program.follows_bind.mpr
      apply Program.follows_mono (keeps_processDurableEvent h)
      rintro _ _ rfl
      exact ih rfl

theorem keeps_claimAndReplay {consumerId : String} {isStartup : Bool} (h : l.ready = some []) :
    Keeps settings (claimAndReplayStaleEvents settings consumerId isStartup)
      (fun _ l => l.ready = some []) l := by
  apply Program.follows_bind.mpr
  apply Program.follows_mono (keeps_claimStalePendingEvents _ _ _ (Or.inr ⟨rfl, h⟩))
  intro events l hready
  exact keeps_processDurableEvents hready

theorem keeps_consumeEvents {consumerId : String} {due : List Bool} (h : l.ready = some []) :
    Keeps settings (consumeEvents settings consumerId due) (fun _ _ => True) l := by
  induction due generalizing l with
  | nil => trivial
  | cons now rest ih =>
      have hclaim : Keeps settings (claimPeriodically settings consumerId now)
          (fun _ l => l.ready = some []) l := by
        cases now with
        | true => exact keeps_claimAndReplay h
        | false => exact h
      apply Program.follows_bind.mpr
      apply Program.follows_mono hclaim
      intro _ l hready
      apply keeps_readNewEvents.mpr
      intro s _
      refine ⟨_, .read l s 10 hready, ?_⟩
      apply Program.follows_bind.mpr
      apply Program.follows_mono (keeps_processDurableEvents rfl)
      exact fun _ l hready => ih hready

theorem keeps_code (o : Orchestrator) :
    Keeps settings (o.code settings) (fun _ _ => True) .off := by
  apply keeps_emit.mpr
  intro s _
  refine ⟨_, .start s, ?_⟩
  apply Program.follows_bind.mpr
  apply Program.follows_mono (keeps_claimAndReplay rfl)
  exact fun _ l hready => keeps_consumeEvents hready

end Protocol

end Dalston.Events
