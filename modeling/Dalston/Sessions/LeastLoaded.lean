import Dalston.Foundation.Journal
import Dalston.Sessions.Capacity

/-!
# Least-loaded allocation

An acquisition reads the records of the engines and tries the one that reports
the most free slots. What a record reports is what its engine last sent; the
sessions that are allocated are counted by the allocator. The choice is right
when the two counts agree at the reading and no slot is lost to another call
after it.

## Implementation notes

The calls of this module are recorded, so that what a call returns is judged by
the records and the sessions as they were when it read the records.
-/

namespace Dalston.Sessions

open Foundation Registry

/-- The engine takes new work, and its last heartbeat is fresh. -/
def responsive (now : Model.Time) (r : EngineRecord) : Bool :=
  !(r.status = "offline" || r.status = "draining") &&
    r.lastHeartbeat.all fun heartbeat => now - heartbeat < EngineRecord.heartbeatTimeoutSeconds

/-- The engine can serve the request, whatever its load. -/
def SessionRequest.eligible (request : SessionRequest) (r : EngineRecord) : Bool :=
  responsive request.now r && r.supportsInterface "realtime" &&
    ((EngineRecord.nonempty request.engineId).all (r.engineId = ·)) &&
    (request.validEngineIds.all (·.contains r.engineId)) &&
    (request.model.all (request.wanted.servesModel r))

/-- The engine has the model loaded that the request asks for. -/
def SessionRequest.loadedIn (request : SessionRequest) (r : EngineRecord) : Bool :=
  (EngineRecord.nonempty request.model).any fun model => (r.modelsLoaded.getD []).contains model

/-- The sessions of an instance that are allocated and not released. -/
def allocated (pool : SessionPool) (instanceId : String) : Nat :=
  live pool.toShared instanceId + reservations pool instanceId

/-- The slots of an engine that no session is allocated to. -/
def freeSlots (pool : SessionPool) (r : EngineRecord) : Int :=
  r.capacity - allocated pool r.instanceId

abbrev SessionJournal := Journal Command SessionStore

abbrev RecordedSessions := RecordedPool Call Command SessionStore Reply

/-- A run comes to the pool in which the journal has the command performed. -/
structure Passed (capacity : String → Nat) (registry : List EngineRecord)
    (journal : SessionJournal) (c : Command) (pool : SessionPool) : Prop where
  run : Pool.Run Call.code (ReservationsKept capacity) (Pool.idle (.fresh registry)) pool
  entry : (pool.store, c) ∈ journal

/-- The engine was the right one to choose when the records were read, and had room when its
slot was taken. -/
structure RightChoice (request : SessionRequest) (a : WorkerAllocation)
    (reading granting : SessionPool) (r : EngineRecord) : Prop where
  registered : r ∈ reading.store.registry
  instanceId : a.instanceId = r.instanceId
  engineId : a.engineId = r.engineId
  eligible : request.eligible r = true
  fits : (allocated granting r.instanceId : Int) + 1 ≤ r.capacity
  mostFree : ∀ r' ∈ reading.store.registry, request.eligible r' = true →
    request.loadedIn r' = request.loadedIn r → freeSlots reading r' ≤ freeSlots reading r

/-- What the acquisition returned is what the sessions allocated at its reading call for. -/
def LeastLoaded (capacity : String → Nat) (registry : List EngineRecord)
    (request : SessionRequest) (journal : SessionJournal) : Option WorkerAllocation → Prop
  | some a => ∃ reading granting r, Passed capacity registry journal .readRegistry reading ∧
      Passed capacity registry journal (.hincrby a.instanceId 1 a.sessionId) granting ∧
      RightChoice request a reading granting r
  | none => ∀ reading, Passed capacity registry journal .readRegistry reading →
      reading.threads.length = 1 → ∀ r ∈ reading.store.registry, request.eligible r = true →
        r.capacity ≤ allocated reading r.instanceId

def WellServed (capacity : String → Nat) (registry : List EngineRecord)
    (x : Return Call SessionStore (Reply × SessionJournal)) : Prop :=
  match x.call, x.result.1 with
  | .acquire request, .allocated a => LeastLoaded capacity registry request x.result.2 a
  | _, _ => True

/-- The engines that can serve the request report the sessions allocated to them. -/
def LoadReported (pool : SessionPool) (request : SessionRequest) : Prop :=
  ∀ r ∈ pool.store.registry, request.eligible r = true →
    r.activeBatch + r.activeRealtime = allocated pool r.instanceId

/-- The request of an acquisition that is about to read the records. -/
def readingFor (t : SessionThread) : Option SessionRequest :=
  match t.call, t.rest.next? with
  | .acquire request, some .readRegistry => some request
  | _, _ => none

/-- After its next effect the acquisition gives a slot back: its increment went beyond the
capacity. -/
def overshoots (pool : SessionPool) (t : SessionThread) : Bool :=
  match t.call, (t.rest.answered pool.store).next? with
  | .acquire _, some (.hincrby _ delta _) => delta < 0
  | _, _ => false

/-- The call moves on undisturbed: it reads the load as it is, and no other call has taken the
slot it chose. -/
def Undisturbed (pool : SessionPool) (t : SessionThread) : Prop :=
  (∀ request ∈ readingFor t, LoadReported pool request) ∧ overshoots pool t = false

/-- The thread that a turn moves. -/
def movedThread (pool : SessionPool) : Turn Call Command → Option SessionThread
  | .move i => pool.threads[i]?
  | _ => none

/-- Sessions are acquired and released in order, and every call moves on undisturbed. -/
def Steady (capacity : String → Nat) (pool : SessionPool) (turn : Turn Call Command) : Prop :=
  ReservationsKept capacity pool turn ∧ ∀ t ∈ movedThread pool turn, Undisturbed pool t

instance (pool : SessionPool) (request : SessionRequest) : Decidable (LoadReported pool request) :=
  inferInstanceAs (Decidable (∀ r ∈ pool.store.registry, _ → _ = _))

instance (pool : SessionPool) (t : SessionThread) : Decidable (Undisturbed pool t) :=
  inferInstanceAs (Decidable ((∀ request ∈ readingFor t, _) ∧ _ = _))

instance (capacity : String → Nat) (pool : SessionPool) (turn : Turn Call Command) :
    Decidable (Steady capacity pool turn) :=
  inferInstanceAs (Decidable (_ ∧ ∀ t ∈ movedThread pool turn, _))

section Choice

variable {request : SessionRequest} {r r' : EngineRecord}

theorem isAvailable_eq (now : Model.Time) (r : EngineRecord) :
    r.isAvailable now = (responsive now r && decide (0 < r.availableCapacity)) := by
  unfold EngineRecord.isAvailable responsive
  by_cases hstatus : r.status = "offline" ∨ r.status = "draining"
  · rw [if_pos hstatus]
    rcases hstatus with h | h <;> simp [h]
  · rw [if_neg hstatus]
    obtain ⟨hoffline, hdraining⟩ := not_or.mp hstatus
    cases r.lastHeartbeat with
    | none => simp [hoffline, hdraining]
    | some heartbeat =>
        by_cases hstale : EngineRecord.heartbeatTimeoutSeconds ≤ now - heartbeat
        · simp [hoffline, hdraining, hstale, not_lt.mpr hstale]
        · simp [hoffline, hdraining, hstale, not_le.mp hstale]

/-- An engine is accepted when it can serve the request and reports a free slot. -/
theorem accepts_eq (request : SessionRequest) (r : EngineRecord) :
    request.wanted.accepts r = (request.eligible r && decide (0 < r.availableCapacity)) := by
  have hinterface : (EngineRecord.nonempty request.wanted.interface).all r.supportsInterface =
      r.supportsInterface "realtime" := by
    simp [SessionRequest.wanted, EngineRecord.nonempty]
  unfold Wanted.accepts SessionRequest.eligible
  rw [isAvailable_eq, hinterface]
  simp only [SessionRequest.wanted]
  ac_rfl

/-- Engines are tried in the order of a key: the model loaded first, then the free slots. -/
theorem before_iff : request.wanted.before r r' = true ↔
    request.loadedIn r' < request.loadedIn r ∨ request.loadedIn r' = request.loadedIn r ∧
      r'.availableCapacity ≤ r.availableCapacity := by
  have hmodel : request.wanted.model = request.model := rfl
  unfold Wanted.before SessionRequest.loadedIn
  rw [hmodel]
  cases EngineRecord.nonempty request.model with
  | none => simp
  | some model =>
      simp only [Option.any_some]
      cases (r.modelsLoaded.getD []).contains model <;>
        cases (r'.modelsLoaded.getD []).contains model <;> simp

theorem before_trans {r r' r'' : EngineRecord} (h : request.wanted.before r r' = true)
    (h' : request.wanted.before r' r'' = true) : request.wanted.before r r'' = true := by
  rw [before_iff] at h h' ⊢
  rcases h with h | ⟨h, hle⟩
  · rcases h' with h' | ⟨h', _⟩
    · exact Or.inl (h'.trans h)
    · exact Or.inl (h' ▸ h)
  · rcases h' with h' | ⟨h', hle'⟩
    · exact Or.inl (h ▸ h')
    · exact Or.inr ⟨h'.trans h, hle'.trans hle⟩

theorem before_total (request : SessionRequest) (r r' : EngineRecord) :
    (request.wanted.before r r' || request.wanted.before r' r) = true := by
  rw [Bool.or_eq_true, before_iff, before_iff]
  rcases lt_trichotomy (request.loadedIn r') (request.loadedIn r) with h | h | h
  · exact Or.inl (Or.inl h)
  · rcases le_total r'.availableCapacity r.availableCapacity with hle | hle
    · exact Or.inl (Or.inr ⟨h, hle⟩)
    · exact Or.inr (Or.inr ⟨h.symm, hle⟩)
  · exact Or.inr (Or.inl h)

/-- The first engine to be tried comes before every other one that was accepted. -/
theorem first_before {records workers : List EngineRecord}
    (h : request.wanted.getAvailable records = r :: workers) (hr' : r' ∈ records)
    (haccepts : request.wanted.accepts r' = true) : request.wanted.before r r' = true := by
  have hsorted : (request.wanted.getAvailable records).Pairwise
      fun a b => request.wanted.before a b = true := by
    apply List.pairwise_mergeSort
    · intro a b c h h'
      exact before_trans h h'
    · exact before_total request
  have hmem : r' ∈ request.wanted.getAvailable records :=
    List.mem_mergeSort.mpr (List.mem_filter.mpr ⟨hr', haccepts⟩)
  rw [h] at hsorted hmem
  rcases List.mem_cons.mp hmem with rfl | hrest
  · simpa using before_total request r' r'
  · exact List.rel_of_pairwise_cons hsorted hrest

variable {reading : SessionPool}

/-- An engine that reports its sessions reports its free slots. -/
theorem availableCapacity_eq (h : LoadReported reading request)
    (hr : r ∈ reading.store.registry) (heligible : request.eligible r = true) :
    r.availableCapacity = max 0 (freeSlots reading r) := by
  have hload := h r hr heligible
  unfold EngineRecord.availableCapacity freeSlots
  omega

/-- When the load is reported, the first engine to be tried has the most free slots. -/
theorem mostFree_first {workers : List EngineRecord} (h : LoadReported reading request)
    (hfirst : request.wanted.getAvailable reading.store.registry = r :: workers)
    (hr' : r' ∈ reading.store.registry) (heligible : request.eligible r' = true)
    (hloaded : request.loadedIn r' = request.loadedIn r) :
    freeSlots reading r' ≤ freeSlots reading r := by
  have hmem : r ∈ request.wanted.getAvailable reading.store.registry := by
    rw [hfirst]
    exact List.mem_cons_self
  obtain ⟨hr, haccepts⟩ := Wanted.mem_getAvailable hmem
  simp only [accepts_eq, Bool.and_eq_true, decide_eq_true_eq] at haccepts
  have hfree := availableCapacity_eq h hr haccepts.1
  have hfree' := availableCapacity_eq h hr' heligible
  by_cases hroom : 0 < r'.availableCapacity
  · have hbefore := first_before hfirst hr' (by simp [accepts_eq, heligible, hroom])
    rcases before_iff.mp hbefore with hlt | ⟨_, hle⟩
    · exact absurd hloaded hlt.ne
    · omega
  · omega

/-- When the load is reported, no engine is tried only if all of them are full. -/
theorem full_of_none (h : LoadReported reading request)
    (hnone : request.wanted.getAvailable reading.store.registry = [])
    (hr : r ∈ reading.store.registry) (heligible : request.eligible r = true) :
    r.capacity ≤ allocated reading r.instanceId := by
  have hfree := availableCapacity_eq h hr heligible
  have hrefused : ¬ 0 < r.availableCapacity := by
    intro hroom
    have hmem : r ∈ request.wanted.getAvailable reading.store.registry :=
      List.mem_mergeSort.mpr
        (List.mem_filter.mpr ⟨hr, by simp [accepts_eq, heligible, hroom]⟩)
    rw [hnone] at hmem
    cases hmem
  unfold freeSlots at hfree
  omega

end Choice

section Runs

variable {capacity : String → Nat} {registry : List EngineRecord} {request : SessionRequest}
  {p : Op Reply} {s : SessionStore}

/-- The acquisition moves on in a steady run. -/
abbrev SteadyMove (capacity : String → Nat) (registry : List EngineRecord)
    (request : SessionRequest) : Op Reply → SessionStore → Prop :=
  MovesOn Call.code (Steady capacity) (Pool.idle (.fresh registry)) (.acquire request)

/-- A steady move is an undisturbed one, in a pool of an ordinary run. -/
theorem undisturbed_of_steadyMove (h : SteadyMove capacity registry request p s) :
    ∃ pool : SessionPool,
      Pool.Run Call.code (ReservationsKept capacity) (Pool.idle (.fresh registry)) pool ∧
        pool.store = s ∧ ∃ t, t.call = .acquire request ∧ t.rest = p ∧ Undisturbed pool t := by
  obtain ⟨pool, i, t, run, hok, ht, hcall, hrest, hstore⟩ := h
  refine ⟨pool, ?_, hstore, t, hcall, hrest, hok.2 t ht⟩
  refine Relation.ReflTransGen.mono ?_ _ _ run
  rintro _ _ ⟨turn, hturn⟩
  exact .turn turn hturn.1

/-- A worker whose slot is reserved is returned. -/
theorem establish_performs {F : Op Reply → SessionStore → Prop} {journal : SessionJournal}
    {sid : SessionId} {worker : EngineRecord} {reply : Reply}
    (h : (establish request sid worker >>= fun a => return .allocated a).Performs F journal
      reply) :
    reply = .allocated (some ⟨worker.instanceId, worker.endpoint, sid, worker.engineId⟩) := by
  obtain ⟨_, _, _, _, h⟩ := Program.performs_step.mp h
  obtain ⟨_, _, _, _, h⟩ := Program.performs_step.mp h
  obtain ⟨_, _, _, _, h⟩ := Program.performs_step.mp h
  obtain ⟨_, _, _, _, h⟩ := Program.performs_step.mp h
  obtain ⟨_, _, _, _, h⟩ := Program.performs_step.mp h
  exact h.2

/-- The choice of an undisturbed acquisition, and what it finds when it takes the slot. -/
theorem rightChoice_of_first (hregistry : Registered capacity registry)
    {reading granting : SessionPool} {worker : EngineRecord} {workers : List EngineRecord}
    {sid : SessionId} (hreported : LoadReported reading request)
    (hworkers : request.wanted.getAvailable reading.store.registry = worker :: workers)
    (hgranting : Pool.Run Call.code (ReservationsKept capacity) (Pool.idle (.fresh registry))
      granting)
    (hroom : granting.store.activeSessions worker.instanceId + 1 ≤ worker.capacity) :
    RightChoice request ⟨worker.instanceId, worker.endpoint, sid, worker.engineId⟩ reading granting
      worker := by
  have hmem : worker ∈ request.wanted.getAvailable reading.store.registry := by
    rw [hworkers]
    exact List.mem_cons_self
  obtain ⟨hregistered, haccepts⟩ := Wanted.mem_getAvailable hmem
  simp only [accepts_eq, Bool.and_eq_true] at haccepts
  constructor
  case registered => exact hregistered
  case instanceId => rfl
  case engineId => rfl
  case eligible => exact haccepts.1
  case fits =>
    rw [counter_counts hregistry hgranting] at hroom
    exact_mod_cast hroom
  case mostFree =>
    intro r' hr' heligible hloaded
    exact mostFree_first hreported hworkers hr' heligible hloaded

/-- An undisturbed acquisition returns what the sessions allocated at its reading call for. -/
theorem leastLoaded_of_performs (hregistry : Registered capacity registry)
    {journal : SessionJournal} {reply : Reply}
    (h : (Call.code (.acquire request)).Performs (SteadyMove capacity registry request) journal
      reply) :
    ∃ a, reply = .allocated a ∧ LeastLoaded capacity registry request journal a := by
  obtain ⟨s, rest, rfl, hmoves, h⟩ := Program.performs_step.mp h
  obtain ⟨reading, hreading, rfl, t, hcall, hrest, hundisturbed⟩ := undisturbed_of_steadyMove hmoves
  have hreported : LoadReported reading request := by
    apply hundisturbed.1
    rw [readingFor, hcall, hrest]
    rfl
  have hchosen : (acquireAvailable request (request.wanted.getAvailable reading.store.registry) >>=
      fun a => return .allocated a).Performs (SteadyMove capacity registry request) rest reply := h
  cases hworkers : request.wanted.getAvailable reading.store.registry with
  | nil =>
      rw [hworkers] at hchosen
      obtain ⟨rfl, rfl⟩ := hchosen
      refine ⟨none, rfl, ?_⟩
      rintro reading' ⟨hrun, hentry⟩ _ r hr heligible
      -- the one entry of the journal fixes the store, and the store the counts
      have hstore : reading'.store = reading.store :=
        (Prod.mk.inj (List.mem_singleton.mp hentry)).1
      have hcount := counter_counts hregistry hrun r.instanceId
      rw [hstore, counter_counts hregistry hreading] at hcount
      rw [hstore] at hr
      have hfull := full_of_none hreported hworkers hr heligible
      simp only [allocated] at hfull ⊢
      omega
  | cons worker workers =>
      rw [hworkers] at hchosen
      obtain ⟨s, rest, rfl, _, hdrawn⟩ := Program.performs_step.mp hchosen
      obtain ⟨s', rest, rfl, hmoves, hgranted⟩ := Program.performs_step.mp hdrawn
      obtain ⟨granting, hgranting, rfl, t', hcall', hrest', hundisturbed'⟩ :=
        undisturbed_of_steadyMove hmoves
      have hover : ¬ granting.store.activeSessions worker.instanceId + 1 > worker.capacity := by
        intro hover
        have hkept := hundisturbed'.2
        rw [overshoots, hcall', hrest'] at hkept
        simp [Program.answered, Program.bind, hincrby, hover] at hkept
      have htaken : ((establish request s.nextId worker).bind fun a => .done (.allocated a)).Performs
          (SteadyMove capacity registry request) rest reply := by
        simpa [Program.bind, hover] using hgranted
      refine ⟨_, establish_performs htaken, reading, granting, worker, ?_⟩
      refine ⟨⟨hreading, by simp⟩, ⟨hgranting, by simp⟩, ?_⟩
      exact rightChoice_of_first hregistry hreported hworkers hgranting (not_lt.mp hover)

/-- Every acquisition is given a least loaded engine that has room, and is refused only when all
engines are full, in every run whose acquisitions are undisturbed. -/
theorem wellServed_of_steady (hregistry : Registered capacity registry) {pool : RecordedSessions}
    (run : RecordedRun Call.code (Steady capacity) (Pool.idle (.fresh registry)) pool) :
    ∀ x ∈ pool.returned, WellServed capacity registry x := by
  intro x hx
  have hperforms := run.performs x hx
  unfold WellServed
  cases hcall : x.call with
  | acquire request =>
      rw [hcall] at hperforms
      obtain ⟨a, hreply, hleast⟩ := leastLoaded_of_performs hregistry hperforms
      rw [hreply]
      exact hleast
  | release sid => trivial
  | reconcile => trivial

end Runs

section Samples

/-- The engine once reported a session. -/
def staleWorker : EngineRecord :=
  { sampleWorker with activeRealtime := 1, lastHeartbeat := some 0 }

def recordedStart : RecordedSessions := Pool.idle (.fresh [sampleWorker])

/-- A session is allocated and reported by its engine. -/
def reportedTurns : List (Turn Call Command) :=
  List.flatten [
    [.start (.acquire sampleRequest)], List.replicate 9 (.move 0),
    [.outside (.registryChanges [staleWorker])]]

/-- The session is released before the next heartbeat. -/
def releasedTurns : List (Turn Call Command) :=
  reportedTurns ++ .start (.release 0) :: List.replicate 7 (.move 0)

/-- One more acquisition, with no other call under way. -/
def lastTurns : List (Turn Call Command) :=
  [.start (.acquire sampleRequest), .move 0, .move 0]

/-- No call is under way, no session is allocated, and the engine reports one. -/
def releasedPool : RecordedSessions := recordedStart.turns (recordedCode Call.code) releasedTurns

def lastReading : RecordedSessions :=
  releasedPool.turn (recordedCode Call.code) (.start (.acquire sampleRequest))

end Samples

theorem wellServed_of_steady_sample :
    (recordedStart.turns (recordedCode Call.code) (reportedTurns ++ lastTurns)).returned.Forall
      (WellServed (fun _ => 1) [sampleWorker]) := by
  have hregistered : Registered (fun _ => 1) [sampleWorker] := by decide
  have hallowed : Pool.Allowed (recordedCode Call.code)
      (fun pool turn => Steady (fun _ => 1) pool.plain turn) recordedStart
      (reportedTurns ++ lastTurns) := by
    decide +kernel
  refine List.forall_iff_forall_mem.mpr fun x hx => ?_
  exact wellServed_of_steady hregistered (Pool.run_of_allowed hallowed) x hx

/-- An acquisition that finds no engine to try returns at once. -/
theorem refused_of_none {pool : RecordedSessions} {request : SessionRequest}
    (hidle : pool.threads = [])
    (hnone : request.wanted.getAvailable pool.store.registry = []) :
    ⟨.acquire request, pool.store, .allocated none, [(pool.store, .readRegistry)]⟩ ∈
      (pool.turns (recordedCode Call.code) [.start (.acquire request), .move 0, .move 0]).returned := by
  simp [Pool.turns, Pool.turn, Pool.moveThread, hidle, recordedCode, Call.code, acquireWorker,
    Program.recorded, Shared.perform, hnone, acquireAvailable]

/-- An acquisition is refused although its engine is free: the last heartbeat counted a session
that has been released. -/
theorem refused_by_stale_load :
    ¬ ∀ (capacity : String → Nat) (registry : List EngineRecord), Registered capacity registry →
      ∀ pool : RecordedSessions,
        RecordedRun Call.code (ReservationsKept capacity) (Pool.idle (.fresh registry)) pool →
        ∀ x ∈ pool.returned, WellServed capacity registry x := by
  intro hclaim
  have hregistered : Registered (fun _ => 1) [sampleWorker] := by decide
  have hallowed : Pool.Allowed (recordedCode Call.code)
      (fun pool turn => ReservationsKept (fun _ => 1) pool.plain turn) recordedStart
      releasedTurns := by
    decide +kernel
  have hlast : Pool.Allowed (recordedCode Call.code)
      (fun pool turn => ReservationsKept (fun _ => 1) pool.plain turn) releasedPool lastTurns := by
    decide +kernel
  have hidle : releasedPool.threads = [] := List.isEmpty_iff.mp (by decide +kernel)
  have hnone : sampleRequest.wanted.getAvailable releasedPool.store.registry = [] :=
    List.isEmpty_iff.mp (by decide +kernel)
  have hrun := Pool.run_of_allowed hallowed
  have hreading : RecordedRun Call.code (ReservationsKept fun _ => 1)
      (Pool.idle (.fresh [sampleWorker])) lastReading :=
    hrun.tail (.turn (.start (Call.acquire sampleRequest)) hlast.1)
  -- the refused call has read the records in `lastReading`
  have hserved := hclaim _ _ hregistered _ (hrun.trans (Pool.run_of_allowed hlast)) _
    (refused_of_none hidle hnone)
  have halone : lastReading.plain.threads.length = 1 := by decide +kernel
  have hfull := hserved lastReading.plain
    ⟨RecordedRun.plain hreading, List.mem_singleton_self _⟩ halone
  revert hfull
  decide +kernel

end Dalston.Sessions
