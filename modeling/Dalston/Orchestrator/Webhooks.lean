import Dalston.Foundation.Session
import Dalston.Foundation.Table
import Dalston.Model.Json

/-!
# Webhook deliveries of a job

The end of a job is delivered to the webhook endpoints of its tenant. A handler
reads the job, selects its targets, inserts one delivery row for each of them
and commits; an insert whose keys are taken is ignored. A job may name its
endpoint; otherwise every active endpoint that subscribes to the event is a
target. Endpoints are created, changed, disabled and deleted at any time, and
an event is handled again after a crash.

## Implementation notes

The inserts of one handler and its commit are one effect: they are one
transaction, and an insert of a target that is gone fails it. The payload is
what the webhook service builds for the event; nothing here depends on it.
Endpoints keep the columns that the selection looks at.
-/

namespace Dalston.Orchestrator.Webhooks

open Foundation Model

abbrev Uuid := Nat

/-- The columns of `webhook_endpoints` and of its events that a selection looks at. -/
structure WebhookEndpointModel where
  id : Uuid
  tenantId : Uuid
  isActive : Bool
  events : List String

structure JobRow where
  id : Uuid
  tenantId : Uuid
  parameters : Config

/-- A row of `webhook_deliveries`. -/
structure WebhookDeliveryModel where
  jobId : Uuid
  eventType : String
  endpointId : Uuid
  payload : Json

/-- The columns of `uq_webhook_deliveries_job_event_endpoint`. -/
def WebhookDeliveryModel.key (row : WebhookDeliveryModel) : Uuid × String × Uuid :=
  (row.jobId, row.eventType, row.endpointId)

structure WebhookStore where
  jobs : Table JobRow.id
  endpoints : Table WebhookEndpointModel.id
  deliveries : Table WebhookDeliveryModel.key

/-- `event_type` or `*` is among the events of the endpoint. -/
def WebhookEndpointModel.subscribes (endpoint : WebhookEndpointModel) (eventType : String) :
    Bool :=
  decide (eventType ∈ endpoint.events) || decide ("*" ∈ endpoint.events)

/-- `get_endpoint`. -/
def WebhookStore.getEndpoint (s : WebhookStore) (id tenantId : Uuid) :
    Option WebhookEndpointModel :=
  (s.endpoints.find? id).filter fun endpoint => endpoint.tenantId = tenantId

/-- `get_endpoints_for_event`. -/
def WebhookStore.getEndpointsForEvent (s : WebhookStore) (tenantId : Uuid) (eventType : String) :
    List WebhookEndpointModel :=
  s.endpoints.rows.filter fun endpoint =>
    endpoint.tenantId = tenantId && endpoint.isActive && endpoint.subscribes eventType

/-- What `update_endpoint` makes of a row. -/
def WebhookEndpointModel.updated (id tenantId : Uuid) (events : Option (List String))
    (isActive : Option Bool) (endpoint : WebhookEndpointModel) : WebhookEndpointModel :=
  if endpoint.id = id ∧ endpoint.tenantId = tenantId then
    { endpoint with
        events := events.getD endpoint.events
        isActive := isActive.getD endpoint.isActive }
  else endpoint

theorem WebhookEndpointModel.id_updated (id tenantId : Uuid) (events : Option (List String))
    (isActive : Option Bool) (endpoint : WebhookEndpointModel) :
    (endpoint.updated id tenantId events isActive).id = endpoint.id := by
  unfold updated
  split <;> rfl

/-- What the automatic disabling makes of a row. -/
def WebhookEndpointModel.disabled (id : Uuid) (endpoint : WebhookEndpointModel) :
    WebhookEndpointModel :=
  if endpoint.id = id then { endpoint with isActive := false } else endpoint

theorem WebhookEndpointModel.id_disabled (id : Uuid) (endpoint : WebhookEndpointModel) :
    (endpoint.disabled id).id = endpoint.id := by
  unfold disabled
  split <;> rfl

inductive WebhookEffect
  /-- `db.get(JobModel, job_id)`. -/
  | getJob (jobId : Uuid)
  | getEndpoint (id tenantId : Uuid)
  | getEndpointsForEvent (tenantId : Uuid) (eventType : String)
  /-- The inserts of a handler and their commit. -/
  | createDeliveries (jobId : Uuid) (eventType : String) (payload : Json) (endpointIds : List Uuid)
  | createEndpoint (endpoint : WebhookEndpointModel)
  | updateEndpoint (id tenantId : Uuid) (events : Option (List String)) (isActive : Option Bool)
  /-- `_check_auto_disable` of the delivery worker. -/
  | autoDisable (id : Uuid)
  | deleteEndpoint (id tenantId : Uuid)

/-- Every endpoint that a new row refers to is there. -/
def WebhookStore.HasEndpoints (s : WebhookStore) (ids : List Uuid) : Prop :=
  ∀ id ∈ ids, (s.endpoints.find? id).isSome

instance (s : WebhookStore) (ids : List Uuid) : Decidable (s.HasEndpoints ids) :=
  inferInstanceAs (Decidable (∀ id ∈ ids, (s.endpoints.find? id).isSome))

def insertDeliveries (jobId : Uuid) (eventType : String) (payload : Json)
    (deliveries : Table WebhookDeliveryModel.key) (ids : List Uuid) :
    Table WebhookDeliveryModel.key :=
  ids.foldl (fun t id => t.insertOrIgnore ⟨jobId, eventType, id, payload⟩) deliveries

namespace WebhookEffect

def apply (e : WebhookEffect) (s : WebhookStore) : WebhookStore :=
  match e with
  | getJob _ | getEndpoint .. | getEndpointsForEvent .. => s
  | createDeliveries jobId eventType payload ids =>
      if s.HasEndpoints ids then
        { s with deliveries := insertDeliveries jobId eventType payload s.deliveries ids }
      else s
  | createEndpoint endpoint => { s with endpoints := s.endpoints.insertOrIgnore endpoint }
  | updateEndpoint id tenantId events isActive =>
      let endpoints := s.endpoints.update (WebhookEndpointModel.updated id tenantId events isActive)
        (WebhookEndpointModel.id_updated id tenantId events isActive)
      { s with endpoints }
  | autoDisable id =>
      let endpoints := s.endpoints.update (WebhookEndpointModel.disabled id)
        (WebhookEndpointModel.id_disabled id)
      { s with endpoints }
  | deleteEndpoint id tenantId =>
      if s.deliveries.rows.any fun row => row.endpointId = id then s
      else
        let endpoints := s.endpoints.delete fun endpoint =>
          endpoint.id = id && endpoint.tenantId = tenantId
        { s with endpoints }

end WebhookEffect

instance : Interprets WebhookEffect WebhookStore := ⟨WebhookEffect.apply⟩

/-- The three ends of a job that are delivered. -/
inductive EndStatus
  | completed | failed | cancelled

/-- `transcription.{status}`. -/
def EndStatus.eventType : EndStatus → String
  | completed => "transcription.completed"
  | failed => "transcription.failed"
  | cancelled => "transcription.cancelled"

/-- An event at the end of a job, with the payload that is built for it. -/
structure JobEvent where
  jobId : Uuid
  status : EndStatus
  payload : Json

inductive HandlerOutcome
  | returned | raised

/-- A session over the webhook tables. -/
abbrev WebhookAction (A : Type) := Program WebhookEffect WebhookStore A

/-- `elevenlabs_webhook_enabled` is `False`. -/
def JobRow.webhooksOff (job : JobRow) : Bool :=
  match job.parameters.get? "elevenlabs_webhook_enabled" with
  | some (.bool enabled) => !enabled
  | _ => false

section Handler

-- `UUID(text)`, which raises on a text that is none
variable (uuidOf : String → Option Uuid)

/-- The endpoint that `elevenlabs_webhook_id` names. -/
def JobRow.namedEndpoint (job : JobRow) : Option Uuid :=
  match job.parameters.get? "elevenlabs_webhook_id" with
  | some (.str raw) => uuidOf raw
  | _ => none

/-- The named endpoint, when the tenant has it. -/
def getNamedEndpoint (tenantId : Uuid) : Option Uuid → WebhookAction (List WebhookEndpointModel)
  | none => return []
  | some id => do
      let s ← Program.perform (.getEndpoint id tenantId)
      return (s.getEndpoint id tenantId).toList

/-- Without a named endpoint the event goes to all that subscribe to it. -/
def selectEndpoints (tenantId : Uuid) (eventType : String) :
    List WebhookEndpointModel → WebhookAction (List WebhookEndpointModel)
  | [] => do
      let s ← Program.perform (.getEndpointsForEvent tenantId eventType)
      return s.getEndpointsForEvent tenantId eventType
  | named => return named

def createDeliveries (event : JobEvent) (endpoints : List WebhookEndpointModel) :
    WebhookAction HandlerOutcome := do
  let before ← Program.perform (.createDeliveries event.jobId event.status.eventType event.payload
    (endpoints.map (·.id)))
  if before.HasEndpoints (endpoints.map (·.id)) then return .returned else return .raised

/-- `_handle_job_webhook`. -/
def handleJobWebhook (event : JobEvent) : WebhookAction HandlerOutcome := do
  match (← Program.perform (.getJob event.jobId)).jobs.find? event.jobId with
  | none => return .returned
  | some job =>
      if job.webhooksOff then return .returned
      else do
        let named ← getNamedEndpoint job.tenantId (job.namedEndpoint uuidOf)
        createDeliveries event (← selectEndpoints job.tenantId event.status.eventType named)

/-- An endpoint that an event of the job is for. -/
def JobRow.targets (job : JobRow) (eventType : String) (endpoint : WebhookEndpointModel) : Bool :=
  endpoint.tenantId = job.tenantId && endpoint.isActive &&
    match job.namedEndpoint uuidOf with
    | some id => endpoint.id = id
    | none => endpoint.subscribes eventType

/-- The job wants its events delivered, and this endpoint is one they are for. -/
def WebhookStore.Eligible (s : WebhookStore) (jobId : Uuid) (eventType : String)
    (endpointId : Uuid) : Prop :=
  ∃ job, s.jobs.find? jobId = some job ∧ job.webhooksOff = false ∧
    ∃ endpoint, s.endpoints.find? endpointId = some endpoint ∧ job.targets uuidOf eventType endpoint

end Handler

section Deliveries

variable {s : WebhookStore} {jobId : Uuid} {eventType : String} {payload : Json}
  {deliveries : Table WebhookDeliveryModel.key} {ids : List Uuid} {row : WebhookDeliveryModel}

theorem insertDeliveries_cons (id : Uuid) :
    insertDeliveries jobId eventType payload deliveries (id :: ids) =
      insertDeliveries jobId eventType payload
        (deliveries.insertOrIgnore ⟨jobId, eventType, id, payload⟩) ids := rfl

theorem mem_insertDeliveries_of_mem (h : row ∈ deliveries.rows) :
    row ∈ (insertDeliveries jobId eventType payload deliveries ids).rows := by
  induction ids generalizing deliveries with
  | nil => exact h
  | cons id ids ih => exact ih (Table.mem_insertOrIgnore.mpr (Or.inl h))

/-- A new row is one of those that are inserted. -/
theorem of_mem_insertDeliveries
    (h : row ∈ (insertDeliveries jobId eventType payload deliveries ids).rows) :
    row ∈ deliveries.rows ∨ ∃ id ∈ ids, row = ⟨jobId, eventType, id, payload⟩ := by
  induction ids generalizing deliveries with
  | nil => exact Or.inl h
  | cons id ids ih =>
      rcases ih h with hrow | ⟨id', hid', rfl⟩
      · rcases Table.mem_insertOrIgnore.mp hrow with hrow | ⟨rfl, _⟩
        · exact Or.inl hrow
        · exact Or.inr ⟨id, List.mem_cons_self, rfl⟩
      · exact Or.inr ⟨id', List.mem_cons_of_mem _ hid', rfl⟩

/-- Every target has a row afterwards. -/
theorem exists_insertDeliveries (deliveries : Table WebhookDeliveryModel.key) {id : Uuid}
    (h : id ∈ ids) :
    ∃ row ∈ (insertDeliveries jobId eventType payload deliveries ids).rows,
      row.key = (jobId, eventType, id) := by
  induction ids generalizing deliveries with
  | nil => cases h
  | cons id' ids ih =>
      rw [insertDeliveries_cons]
      rcases List.mem_cons.mp h with rfl | h
      · obtain ⟨row, hrow, hkey⟩ :=
          deliveries.exists_insertOrIgnore ⟨jobId, eventType, id, payload⟩
        exact ⟨row, mem_insertDeliveries_of_mem hrow, hkey⟩
      · exact ih _ h

variable (e : WebhookEffect)

theorem jobs_apply : (e.apply s).jobs = s.jobs := by
  cases e with
  | createDeliveries => simp only [WebhookEffect.apply]; split <;> rfl
  | deleteEndpoint => simp only [WebhookEffect.apply]; split <;> rfl
  | _ => rfl

theorem deliveries_apply (h : row ∈ s.deliveries.rows) : row ∈ (e.apply s).deliveries.rows := by
  cases e with
  | createDeliveries =>
      simp only [WebhookEffect.apply]
      split
      · exact mem_insertDeliveries_of_mem h
      · exact h
  | deleteEndpoint => simp only [WebhookEffect.apply]; split <;> exact h
  | _ => exact h

variable {e}

/-- Only the insert of a handler adds rows, and only for endpoints that are there. -/
theorem inserted_of_mem_apply (h : row ∈ (e.apply s).deliveries.rows)
    (hnew : row ∉ s.deliveries.rows) :
    ∃ payload ids, e = .createDeliveries row.jobId row.eventType payload ids ∧
      s.HasEndpoints ids ∧ row.endpointId ∈ ids := by
  cases e with
  | createDeliveries jobId eventType payload ids =>
      simp only [WebhookEffect.apply] at h
      split at h
      · rename_i hthere
        obtain ⟨id, hid, rfl⟩ := (of_mem_insertDeliveries h).resolve_left hnew
        exact ⟨payload, ids, rfl, hthere, hid⟩
      · exact absurd h hnew
  | deleteEndpoint =>
      simp only [WebhookEffect.apply] at h
      split at h <;> exact absurd h hnew
  | _ => exact absurd h hnew

end Deliveries

/-- What a handler has performed, and the stores it was performed in; the latest comes first. -/
abbrev Memory := List (WebhookStore × WebhookEffect)

def learn (k : Memory) (e : WebhookEffect) (s : WebhookStore) : Memory := (s, e) :: k

abbrev HandlerPool :=
  Pool JobEvent (Noted WebhookEffect Memory) WebhookStore (HandlerOutcome × Memory)

section Sessions

variable (uuidOf : String → Option Uuid)

/-- The handlers, in sessions that remember what they have seen. -/
def handlers (event : JobEvent) : Program (Noted WebhookEffect Memory) WebhookStore
    (HandlerOutcome × Memory) :=
  (handleJobWebhook uuidOf event).noting learn []

/-- The three ways a handler comes to its targets. -/
inductive Chosen (jobId : Uuid) (eventType : String) : Memory → List Uuid → Prop
  | named {s₀ s : WebhookStore} {job : JobRow} {id : Uuid} {endpoint : WebhookEndpointModel}
      (hjob : s₀.jobs.find? jobId = some job) (hon : job.webhooksOff = false)
      (hnamed : job.namedEndpoint uuidOf = some id)
      (hfound : s.getEndpoint id job.tenantId = some endpoint) :
      Chosen jobId eventType [(s, .getEndpoint id job.tenantId), (s₀, .getJob jobId)] [endpoint.id]
  | fallback {s₀ s₁ s : WebhookStore} {job : JobRow} {id : Uuid}
      (hjob : s₀.jobs.find? jobId = some job) (hon : job.webhooksOff = false)
      (hnamed : job.namedEndpoint uuidOf = some id)
      (hnone : s₁.getEndpoint id job.tenantId = none) :
      Chosen jobId eventType [(s, .getEndpointsForEvent job.tenantId eventType),
        (s₁, .getEndpoint id job.tenantId), (s₀, .getJob jobId)]
        ((s.getEndpointsForEvent job.tenantId eventType).map (·.id))
  | broadcast {s₀ s : WebhookStore} {job : JobRow}
      (hjob : s₀.jobs.find? jobId = some job) (hon : job.webhooksOff = false)
      (hnamed : job.namedEndpoint uuidOf = none) :
      Chosen jobId eventType [(s, .getEndpointsForEvent job.tenantId eventType),
        (s₀, .getJob jobId)] ((s.getEndpointsForEvent job.tenantId eventType).map (·.id))

/-- Rows are inserted for what the handler has chosen. -/
def ByChoice (k : Memory) (e : WebhookEffect) : Prop :=
  ∀ jobId eventType payload ids, e = .createDeliveries jobId eventType payload ids →
    Chosen uuidOf jobId eventType k ids

/-- A handler that returns has nothing to deliver, or has inserted what it has chosen. -/
inductive Handled (event : JobEvent) : Memory → Prop
  | nothing {s₀ : WebhookStore}
      (hoff : ∀ job, s₀.jobs.find? event.jobId = some job → job.webhooksOff = true) :
      Handled event [(s₀, .getJob event.jobId)]
  | inserted {s : WebhookStore} {k : Memory} {ids : List Uuid}
      (hchosen : Chosen uuidOf event.jobId event.status.eventType k ids)
      (hthere : s.HasEndpoints ids) : Handled event
        ((s, .createDeliveries event.jobId event.status.eventType event.payload ids) :: k)

/-- What a handler ends in. -/
def Ends (event : JobEvent) (outcome : HandlerOutcome) (k : Memory) : Prop :=
  outcome = .returned → Handled uuidOf event k

variable {uuidOf}

/-- The code of the handler keeps to what it has chosen. -/
theorem heeds_handleJobWebhook (event : JobEvent) :
    (handleJobWebhook uuidOf event).Heeds learn (ByChoice uuidOf) (Ends uuidOf event) [] := by
  have hread : ∀ {k : Memory} {e : WebhookEffect}, (∀ jobId eventType payload ids,
      e ≠ .createDeliveries jobId eventType payload ids) → ByChoice uuidOf k e :=
    fun hne jobId eventType payload ids he => absurd he (hne jobId eventType payload ids)
  have hcreate : ∀ {k : Memory} {endpoints : List WebhookEndpointModel},
      Chosen uuidOf event.jobId event.status.eventType k (endpoints.map (·.id)) →
        (createDeliveries event endpoints).Heeds learn (ByChoice uuidOf) (Ends uuidOf event) k := by
    intro k endpoints hchosen
    refine Program.heeds_perform_bind.mpr ⟨?_, fun s => ?_⟩
    · rintro _ _ _ _ ⟨⟩
      exact hchosen
    · split
      · rename_i hthere
        exact fun _ => .inserted hchosen hthere
      · exact (fun h => nomatch h)
  refine Program.heeds_perform_bind.mpr ⟨hread (by simp), fun s₀ => ?_⟩
  split
  · rename_i hnone
    exact fun _ => .nothing fun job hjob => by simp [hnone] at hjob
  rename_i job hjob
  split
  · rename_i hoff
    exact fun _ => .nothing fun job' hjob' => by rwa [← Option.some.inj (hjob.symm.trans hjob')]
  rename_i hoff
  have hon : job.webhooksOff = false := by simpa using hoff
  rcases hnamed : job.namedEndpoint uuidOf with _ | id
  · refine Program.heeds_perform_bind.mpr ⟨hread (by simp), fun s => ?_⟩
    exact hcreate (.broadcast hjob hon hnamed)
  refine Program.heeds_perform_bind.mpr ⟨hread (by simp), fun s => ?_⟩
  rcases hfound : s.getEndpoint id job.tenantId with _ | endpoint
  · refine Program.heeds_perform_bind.mpr ⟨hread (by simp), fun s' => ?_⟩
    exact hcreate (.fallback hjob hon hnamed hfound)
  · exact hcreate (.named hjob hon hnamed hfound)

end Sessions

section Settled

/-- The endpoint has not lost, since it was seen, what made it a target. -/
def stillWanted (eventType : String) (seen s : WebhookStore) (id : Uuid) : Bool :=
  match seen.endpoints.find? id, s.endpoints.find? id with
  | some before, some now =>
      now.tenantId = before.tenantId && (!before.isActive || now.isActive) &&
        (!before.subscribes eventType || now.subscribes eventType)
  | _, _ => true

/-- A named endpoint is there and active, and no target is lost between its selection and the
insert of its row. -/
def settledEffect (s : WebhookStore) (n : Noted WebhookEffect Memory) : Bool :=
  match n.effect with
  | .getEndpoint id tenantId => (s.getEndpoint id tenantId).any (·.isActive)
  | .createDeliveries _ eventType _ ids =>
      n.known.head?.all fun seen => ids.all fun id => stillWanted eventType seen.1 s id
  | _ => true

def WebhookEffect.managesEndpoints : WebhookEffect → Bool
  | createEndpoint _ | updateEndpoint .. | autoDisable _ | deleteEndpoint .. => true
  | _ => false

/-- From outside, endpoints are created, updated, disabled and deleted. -/
def EndpointsOnly (_ : HandlerPool) : Turn JobEvent (Noted WebhookEffect Memory) → Prop
  | .outside n => n.effect.managesEndpoints = true
  | _ => True

def Settled (pool : HandlerPool) : Turn JobEvent (Noted WebhookEffect Memory) → Prop
  | .move i => (pool.next? i).all (settledEffect pool.store) = true
  | .outside n => n.effect.managesEndpoints = true
  | _ => True

instance : ∀ pool t, Decidable (EndpointsOnly pool t)
  | _, .outside n => inferInstanceAs (Decidable (n.effect.managesEndpoints = true))
  | _, .start _ | _, .move _ | _, .fail _ => isTrue trivial

instance : ∀ pool t, Decidable (Settled pool t)
  | pool, .move i => inferInstanceAs (Decidable ((pool.next? i).all (settledEffect pool.store) = true))
  | _, .outside n => inferInstanceAs (Decidable (n.effect.managesEndpoints = true))
  | _, .start _ | _, .fail _ => isTrue trivial

/-- What a settled run adds to an effect that was performed in `s₀`. -/
structure Kept (s s₀ : WebhookStore) (e : WebhookEffect) : Prop where
  jobs : s.jobs = s₀.jobs
  named : ∀ id tenantId, e = .getEndpoint id tenantId →
    ∃ endpoint, s₀.getEndpoint id tenantId = some endpoint ∧ endpoint.isActive = true
  inserted : ∀ jobId eventType payload ids, e = .createDeliveries jobId eventType payload ids →
    s₀.HasEndpoints ids → ∀ id ∈ ids, ∃ row ∈ s.deliveries.rows, row.key = (jobId, eventType, id)

def AllKept (s : WebhookStore) (k : Memory) : Prop := ∀ entry ∈ k, Kept s entry.1 entry.2

variable {s s₀ : WebhookStore} {e e' : WebhookEffect} {k : Memory}

theorem Kept.apply (h : Kept s s₀ e) (e' : WebhookEffect) : Kept (e'.apply s) s₀ e := by
  refine ⟨(jobs_apply e').trans h.jobs, h.named, fun jobId eventType payload ids he hs id hid => ?_⟩
  obtain ⟨row, hrow, hkey⟩ := h.inserted jobId eventType payload ids he hs id hid
  exact ⟨row, deliveries_apply e' hrow, hkey⟩

theorem AllKept.sameJobs {entry entry' : WebhookStore × WebhookEffect} (hk : AllKept s k)
    (h : entry ∈ k) (h' : entry' ∈ k) : entry.1.jobs = entry'.1.jobs :=
  (hk entry h).jobs.symm.trans (hk entry' h').jobs

/-- A settled effect is kept by the store it leaves. -/
theorem kept_of_settled (h : settledEffect s ⟨e, k⟩ = true) : Kept (e.apply s) s e := by
  refine ⟨jobs_apply e, ?_, ?_⟩
  · rintro id tenantId rfl
    exact (Option.any_eq_true _ _).mp h
  · rintro jobId eventType payload ids rfl hs id hid
    simp only [WebhookEffect.apply, if_pos hs]
    exact exists_insertDeliveries s.deliveries hid

variable {uuidOf : String → Option Uuid}

theorem remembers_allKept :
    Remembers learn (ByChoice uuidOf) [] Settled (fun _ => True) AllKept := by
  refine ⟨fun s entry hentry => (nomatch hentry), fun pool i n hok hnext _ hk _ => ⟨trivial, ?_⟩,
    fun pool i n k _ _ _ _ hk _ entry hentry => (hk entry hentry).apply n.effect,
    fun pool n _ _ => ⟨trivial, fun k hk entry hentry => (hk entry hentry).apply n.effect⟩⟩
  have hsettled : settledEffect pool.store n = true := by simpa [Settled, hnext] using hok
  intro entry hentry
  rcases List.mem_cons.mp hentry with rfl | hentry
  · exact kept_of_settled hsettled
  · exact (hk entry hentry).apply n.effect

end Settled

section FanOut

variable {uuidOf : String → Option Uuid} {s : WebhookStore} {k : Memory} {jobId endpointId : Uuid}
  {eventType : String} {ids : List Uuid}

theorem find?_of_getEndpoint {id tenantId : Uuid} {endpoint : WebhookEndpointModel}
    (h : s.getEndpoint id tenantId = some endpoint) :
    endpoint.id = id ∧ s.endpoints.find? id = some endpoint ∧ endpoint.tenantId = tenantId := by
  obtain ⟨hfind, htenant⟩ := Option.filter_eq_some_iff.mp h
  exact ⟨(Table.find?_eq_some_iff.mp hfind).2, hfind, by simpa using htenant⟩

theorem mem_getEndpointsForEvent {tenantId id : Uuid} :
    id ∈ (s.getEndpointsForEvent tenantId eventType).map (·.id) ↔
      ∃ endpoint, s.endpoints.find? id = some endpoint ∧ endpoint.tenantId = tenantId ∧
        endpoint.isActive = true ∧ endpoint.subscribes eventType = true := by
  simp only [WebhookStore.getEndpointsForEvent, List.mem_map, List.mem_filter,
    Table.find?_eq_some_iff, Bool.and_eq_true, decide_eq_true_eq]
  constructor
  · rintro ⟨endpoint, ⟨hmem, ⟨htenant, hactive⟩, hsubscribes⟩, rfl⟩
    exact ⟨endpoint, ⟨hmem, rfl⟩, htenant, hactive, hsubscribes⟩
  · rintro ⟨endpoint, ⟨hmem, rfl⟩, htenant, hactive, hsubscribes⟩
    exact ⟨endpoint, ⟨hmem, ⟨htenant, hactive⟩, hsubscribes⟩, rfl⟩

theorem eligible_iff {job : JobRow} (hjob : s.jobs.find? jobId = some job)
    (hon : job.webhooksOff = false) :
    s.Eligible uuidOf jobId eventType endpointId ↔ ∃ endpoint,
      s.endpoints.find? endpointId = some endpoint ∧
        job.targets uuidOf eventType endpoint = true := by
  simp [WebhookStore.Eligible, hjob, hon]

/-- With its named endpoint settled, a handler chooses the endpoints that are eligible in the
store it selects from. -/
theorem mem_chosen_iff (h : Chosen uuidOf jobId eventType k ids) (hk : AllKept s k) :
    ∃ seen ∈ k.head?, ∀ id, id ∈ ids ↔ seen.1.Eligible uuidOf jobId eventType id := by
  cases h with
  | @named s₀ seen job named endpoint hjob hon hnamed hfound =>
      refine ⟨_, rfl, fun id => ?_⟩
      have hsame := hk.sameJobs List.mem_cons_self (List.mem_cons_of_mem _ List.mem_cons_self)
      obtain ⟨hid, hfind, htenant⟩ := find?_of_getEndpoint hfound
      have hactive : endpoint.isActive = true := by
        obtain ⟨endpoint', hfound', hactive⟩ := (hk _ List.mem_cons_self).named _ _ rfl
        rwa [Option.some.inj (hfound.symm.trans hfound')]
      rw [eligible_iff (hsame ▸ hjob) hon, List.mem_singleton]
      constructor
      · rintro rfl
        exact ⟨endpoint, hid ▸ hfind, by simp [JobRow.targets, htenant, hactive, hnamed, hid]⟩
      · rintro ⟨endpoint', hfind', htargets⟩
        simp only [JobRow.targets, hnamed, Bool.and_eq_true, decide_eq_true_eq] at htargets
        rw [hid, ← htargets.2, (Table.find?_eq_some_iff.mp hfind').2]
  | fallback _ _ _ hnone =>
      obtain ⟨_, hfound, _⟩ := (hk _ (List.mem_cons_of_mem _ List.mem_cons_self)).named _ _ rfl
      rw [hnone] at hfound
      cases hfound
  | @broadcast s₀ seen job hjob hon hnamed =>
      refine ⟨_, rfl, fun id => ?_⟩
      have hsame := hk.sameJobs List.mem_cons_self (List.mem_cons_of_mem _ List.mem_cons_self)
      rw [eligible_iff (hsame ▸ hjob) hon, mem_getEndpointsForEvent]
      simp [JobRow.targets, hnamed, and_assoc]

/-- A target that is there and has lost nothing is still eligible. -/
theorem eligible_of_stillWanted {seen : WebhookStore} {id : Uuid} (hjobs : s.jobs = seen.jobs)
    (h : seen.Eligible uuidOf jobId eventType id) (hthere : (s.endpoints.find? id).isSome)
    (hwanted : stillWanted eventType seen s id = true) :
    s.Eligible uuidOf jobId eventType id := by
  obtain ⟨job, hjob, hon, before, hbefore, htargets⟩ := h
  obtain ⟨now, hnow⟩ := Option.isSome_iff_exists.mp hthere
  refine ⟨job, hjobs ▸ hjob, hon, now, hnow, ?_⟩
  have hid : now.id = before.id :=
    (Table.find?_eq_some_iff.mp hnow).2.trans (Table.find?_eq_some_iff.mp hbefore).2.symm
  simp only [stillWanted, hbefore, hnow, Bool.and_eq_true, decide_eq_true_eq] at hwanted
  obtain ⟨⟨htenant, hactive⟩, hsubscribes⟩ := hwanted
  simp only [JobRow.targets, Bool.and_eq_true, decide_eq_true_eq] at htargets ⊢
  obtain ⟨⟨htenant₀, hactive₀⟩, htarget₀⟩ := htargets
  refine ⟨⟨htenant.trans htenant₀, by simpa [hactive₀] using hactive⟩, ?_⟩
  cases hnamed : job.namedEndpoint uuidOf with
  | none =>
      have hbefore : before.subscribes eventType = true := by simpa [hnamed] using htarget₀
      simpa [hbefore] using hsubscribes
  | some _ => simpa [hnamed, hid] using htarget₀

/-- The rows that a settled insert adds are rows of eligible endpoints. -/
theorem eligible_of_inserted {n : Noted WebhookEffect Memory} {row : WebhookDeliveryModel}
    (hk : AllKept s n.known) (hchoice : ByChoice uuidOf n.known n.effect)
    (hsettled : settledEffect s n = true) (hrow : row ∈ (n.effect.apply s).deliveries.rows)
    (hnew : row ∉ s.deliveries.rows) :
    s.Eligible uuidOf row.jobId row.eventType row.endpointId := by
  obtain ⟨payload, ids, he, hthere, hid⟩ := inserted_of_mem_apply hrow hnew
  obtain ⟨seen, hseen, hiff⟩ := mem_chosen_iff (hchoice _ _ _ _ he) hk
  have hwanted : stillWanted row.eventType seen.1 s row.endpointId = true := by
    simp only [settledEffect, he, Option.mem_def.mp hseen, Option.all_some, List.all_eq_true]
      at hsettled
    exact hsettled _ hid
  have hjobs := (hk seen (List.mem_of_mem_head? hseen)).jobs
  exact eligible_of_stillWanted hjobs ((hiff _).mp hid) (hthere _ hid) hwanted

/-- After a handler has returned, the endpoints that were eligible in all stores it went through
have their rows. -/
theorem exists_row_of_handled {event : JobEvent} (hk : AllKept s k) (h : Handled uuidOf event k)
    (heligible : ∀ entry ∈ k,
      entry.1.Eligible uuidOf event.jobId event.status.eventType endpointId) :
    ∃ row ∈ s.deliveries.rows,
      row.key = (event.jobId, event.status.eventType, endpointId) := by
  cases h with
  | nothing hoff =>
      obtain ⟨job, hjob, hon, _⟩ := heligible _ List.mem_cons_self
      rw [hoff job hjob] at hon
      cases hon
  | inserted hchosen hthere =>
      have hrest : AllKept s _ := fun entry hentry => hk entry (List.mem_cons_of_mem _ hentry)
      obtain ⟨seen, hseen, hiff⟩ := mem_chosen_iff hchosen hrest
      have hid := (hiff endpointId).mpr
        (heligible seen (List.mem_cons_of_mem _ (List.mem_of_mem_head? hseen)))
      exact (hk _ List.mem_cons_self).inserted _ _ _ _ rfl hthere _ hid

/-- Endpoints are managed without a row. -/
theorem deliveries_of_managesEndpoints {e : WebhookEffect} (h : e.managesEndpoints = true) :
    (e.apply s).deliveries = s.deliveries := by
  cases e with
  | deleteEndpoint => simp only [WebhookEffect.apply]; split <;> rfl
  | createEndpoint | updateEndpoint | autoDisable => rfl
  | _ => cases h

/-- In every settled run no endpoint has two rows for an event of a job, each new row is one of an
eligible endpoint, and once a handler has returned, each endpoint that was eligible throughout
has its row. -/
theorem webhook_fan_out {s₀ : WebhookStore} {pool : HandlerPool}
    {turn : Turn JobEvent (Noted WebhookEffect Memory)}
    (run : Pool.Run (handlers uuidOf) Settled (Pool.idle s₀) pool) (ok : Settled pool turn) :
    (pool.store.deliveries.rows.map (·.key)).Nodup ∧
      (∀ row ∈ (pool.turn (handlers uuidOf) turn).store.deliveries.rows,
        row ∉ pool.store.deliveries.rows →
          pool.store.Eligible uuidOf row.jobId row.eventType row.endpointId) ∧
      ∀ r ∈ pool.returned, r.result.1 = .returned → ∀ endpointId,
        (∀ entry ∈ r.result.2,
          entry.1.Eligible uuidOf r.call.jobId r.call.status.eventType endpointId) →
        ∃ row ∈ pool.store.deliveries.rows,
          row.key = (r.call.jobId, r.call.status.eventType, endpointId) := by
  obtain ⟨gs, hsessions⟩ := remembers_allKept.run heeds_handleJobWebhook trivial run
  refine ⟨pool.store.deliveries.unique, fun row hrow hnew => ?_,
    fun r hr hreturned endpointId heligible => ?_⟩
  · rcases pool.store_turn (handlers uuidOf) turn with
      hsame | ⟨i, n, rfl, hnext, happly⟩ | ⟨n, rfl, happly⟩
    · exact absurd (hsame ▸ hrow) hnew
    · obtain ⟨g, hg, hknown, hchoice⟩ := hsessions.underWay.next hnext
      have hsettled : settledEffect pool.store n = true := by simpa [Settled, hnext] using ok
      rw [happly] at hrow
      exact eligible_of_inserted (hknown ▸ hsessions.known g hg) hchoice hsettled hrow hnew
    · rw [happly] at hrow
      exact absurd (deliveries_of_managesEndpoints ok ▸ hrow) hnew
  · obtain ⟨hk, hends⟩ := hsessions.returned r hr
    exact exists_row_of_handled hk (hends hreturned) heligible

end FanOut

section Runs

def storeOf (job : JobRow) (endpoint : WebhookEndpointModel) : WebhookStore where
  jobs := ⟨[job], List.nodup_singleton _⟩
  endpoints := ⟨[endpoint], List.nodup_singleton _⟩
  deliveries := ⟨[], List.nodup_nil⟩

/-- The only text of the runs that is an identifier. -/
def sampleUuid (text : String) : Option Uuid := if text = "1" then some 1 else none

def completedEvent : JobEvent := ⟨1, .completed, .null⟩

/-- One handler of the event, until it returns. -/
def handledPool (job : JobRow) (endpoint : WebhookEndpointModel) : HandlerPool :=
  (Pool.idle (storeOf job endpoint)).turns (handlers sampleUuid)
    [.start completedEvent, .move 0, .move 0, .move 0, .move 0]

def wildcardEndpoint : WebhookEndpointModel := ⟨1, 1, true, ["*"]⟩

/-- A job without a named endpoint is delivered to the one that subscribes to everything. -/
theorem webhook_fan_out_wildcard :
    (((handledPool ⟨1, 1, []⟩ wildcardEndpoint).store.deliveries.rows.map (·.key)).Nodup ∧
      (∀ row ∈ ((handledPool ⟨1, 1, []⟩ wildcardEndpoint).turn (handlers sampleUuid)
          (.start completedEvent)).store.deliveries.rows,
        row ∉ (handledPool ⟨1, 1, []⟩ wildcardEndpoint).store.deliveries.rows →
          (handledPool ⟨1, 1, []⟩ wildcardEndpoint).store.Eligible sampleUuid row.jobId
            row.eventType row.endpointId) ∧
      ∀ r ∈ (handledPool ⟨1, 1, []⟩ wildcardEndpoint).returned,
        r.result.1 = .returned → ∀ endpointId,
        (∀ entry ∈ r.result.2,
          entry.1.Eligible sampleUuid r.call.jobId r.call.status.eventType endpointId) →
        ∃ row ∈ (handledPool ⟨1, 1, []⟩ wildcardEndpoint).store.deliveries.rows,
          row.key = (r.call.jobId, r.call.status.eventType, endpointId)) := by
  have hsettled : Pool.Allowed (handlers sampleUuid) Settled
      (Pool.idle (storeOf ⟨1, 1, []⟩ wildcardEndpoint))
      [.start completedEvent, .move 0, .move 0, .move 0, .move 0] := by
    decide +kernel
  exact webhook_fan_out (Pool.run_of_allowed hsettled) trivial

example : (handledPool ⟨1, 1, []⟩ wildcardEndpoint).store.deliveries.rows.map (·.key) =
    [(1, "transcription.completed", 1)] := by
  decide +kernel

/-- The job names an endpoint that has been disabled. -/
def namingJob : JobRow := ⟨1, 1, [("elevenlabs_webhook_id", .str "1")]⟩

def disabledEndpoint : WebhookEndpointModel := wildcardEndpoint.disabled 1

def chosenPool : HandlerPool :=
  (Pool.idle (storeOf namingJob disabledEndpoint)).turns (handlers sampleUuid)
    [.start completedEvent, .move 0, .move 0]

/-- A disabled endpoint gets a row when the job names it. -/
theorem disabled_endpoint_delivered : ¬ ∀ (pool : HandlerPool)
    (turn : Turn JobEvent (Noted WebhookEffect Memory)),
    Pool.Run (handlers sampleUuid) EndpointsOnly
        (Pool.idle (storeOf namingJob disabledEndpoint)) pool → EndpointsOnly pool turn →
      ∀ row ∈ (pool.turn (handlers sampleUuid) turn).store.deliveries.rows,
        row ∉ pool.store.deliveries.rows →
          pool.store.Eligible sampleUuid row.jobId row.eventType row.endpointId := by
  intro h
  have hrun : Pool.Run (handlers sampleUuid) EndpointsOnly
      (Pool.idle (storeOf namingJob disabledEndpoint)) chosenPool :=
    Pool.run_of_allowed ⟨trivial, trivial, trivial, trivial⟩
  have hempty : chosenPool.store.deliveries.rows.length = 0 := by decide +kernel
  have hkeys : (chosenPool.turn (handlers sampleUuid) (.move 0)).store.deliveries.rows.map (·.key) =
      [(1, "transcription.completed", 1)] := by
    decide +kernel
  have hactive : ∀ endpoint ∈ chosenPool.store.endpoints.find? 1, endpoint.isActive = false := by
    decide +kernel
  obtain ⟨row, hrow, hkey⟩ := List.mem_map.mp (hkeys ▸ List.mem_singleton_self
    ((1, "transcription.completed", 1) : Uuid × String × Uuid))
  have hnew : row ∉ chosenPool.store.deliveries.rows := by
    rw [List.length_eq_zero_iff.mp hempty]
    exact List.not_mem_nil
  obtain ⟨_, _, _, endpoint, hfound, htargets⟩ := h chosenPool (.move 0) hrun trivial row hrow hnew
  have hid : row.endpointId = 1 := congrArg (·.2.2) hkey
  rw [hid] at hfound
  simp [JobRow.targets, hactive endpoint hfound] at htargets

end Runs

end Dalston.Orchestrator.Webhooks
