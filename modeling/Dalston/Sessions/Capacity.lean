import Dalston.Foundation.Counting
import Dalston.Sessions.Allocator

/-!
# The counter of an instance

An instance's counter is incremented before the capacity is checked, and
decremented again when the check fails. So it counts the live sessions of the
instance together with the calls that hold a reservation, and only a call that
found room below the capacity goes on to record a session. This fails when the
record of a session cannot be written: the reservation is then never given back.

## Implementation notes

A session is live from the write of its record to the decrement of its release.
A call holds a reservation while its next effect is to give the slot back or to
record the session.
-/

namespace Dalston.Sessions

open Foundation Registry

/-- The command gives the session's slot back. -/
def Command.givesBack (sid : SessionId) : Command → Bool
  | .hincrby _ delta sid' => delta < 0 && sid' = sid
  | _ => false

def GivenBack (s : SessionShared) (sid : SessionId) : Prop :=
  ∃ c ∈ s.history, c.givesBack sid = true

instance (s : SessionShared) (sid : SessionId) : Decidable (GivenBack s sid) :=
  inferInstanceAs (Decidable (∃ c ∈ s.history, c.givesBack sid = true))

/-- The record says that its session is active on the instance. -/
def activeOn (instanceId : String) (data : Hash) : Bool :=
  instanceOf data = some instanceId &&
    EngineRecord.field data "status" FieldText.asText = some "active"

/-- The session is recorded on the instance and its slot was not given back. -/
def liveOn (s : SessionShared) (instanceId : String) (sid : SessionId) : Bool :=
  (s.store.session sid).any (activeOn instanceId) && !decide (GivenBack s sid)

/-- The number of live sessions of an instance. -/
def live (s : SessionShared) (instanceId : String) : Nat :=
  countBelow s.store.nextId (liveOn s instanceId)

/-- The call is about to give back or to record the slot it has reserved. -/
def reserves (instanceId : String) (t : SessionThread) : Bool :=
  match t.call, t.rest.next? with
  | .acquire _, some (.hincrby i delta _) => delta < 0 && i = instanceId
  | .acquire _, some (.hsetSession _ mapping) => instanceOf mapping = some instanceId
  | _, _ => false

/-- The number of reservations in flight on an instance. -/
def reservations (pool : SessionPool) (instanceId : String) : Nat :=
  pool.threads.countP (reserves instanceId)

/-- Every record of the registry names an instance, and no more than its capacity. -/
def Registered (capacity : String → Nat) (records : List EngineRecord) : Prop :=
  ∀ r ∈ records, r.instanceId ≠ "" ∧ r.capacity ≤ capacity r.instanceId

def Reply.hands (sid : SessionId) : Reply → Bool
  | .allocated (some a) => a.sessionId = sid
  | _ => false

theorem Reply.hands_iff {reply : Reply} {sid : SessionId} :
    reply.hands sid = true ↔ ∃ a, reply = .allocated (some a) ∧ a.sessionId = sid := by
  rcases reply with (_ | a) | _ | _ <;> simp [Reply.hands]

def Call.releases (sid : SessionId) : Call → Bool
  | .release sid' => sid' = sid
  | _ => false

theorem Call.releases_iff {call : Call} {sid : SessionId} :
    call.releases sid = true ↔ call = .release sid := by
  cases call <;> simp [Call.releases]

/-- The session was returned to a caller. -/
def HandedOut (s : SessionShared) (sid : SessionId) : Prop :=
  ∃ x ∈ s.returned, ∃ a, x.result = .allocated (some a) ∧ a.sessionId = sid

instance (s : SessionShared) (sid : SessionId) : Decidable (HandedOut s sid) :=
  decidable_of_iff (∃ x ∈ s.returned, x.result.hands sid = true) (by
    simp only [HandedOut, Reply.hands_iff])

def ReleaseCalled (pool : SessionPool) (sid : SessionId) : Prop :=
  (∃ t ∈ pool.threads, t.call = .release sid) ∨ ∃ x ∈ pool.returned, x.call = .release sid

instance (pool : SessionPool) (sid : SessionId) : Decidable (ReleaseCalled pool sid) :=
  decidable_of_iff ((∃ t ∈ pool.threads, t.call.releases sid = true) ∨
      ∃ x ∈ pool.returned, x.call.releases sid = true) (by
    simp only [ReleaseCalled, Call.releases_iff])

/-- The call is about to write the record of its session, or its time to live. -/
def writesRecord (t : SessionThread) : Bool :=
  match t.call, t.rest.next? with
  | .acquire _, some (.hsetSession _ _) | .acquire _, some (.expireSession _) => true
  | _, _ => false

/-- The call acquires a session and holds no reservation. -/
def reservesNothing (t : SessionThread) : Bool :=
  match t.call, t.rest.next? with
  | .acquire _, some (.hincrby _ delta _) => 0 ≤ delta
  | .acquire _, some (.hsetSession _ _) => false
  | .acquire _, _ => true
  | _, _ => false

def Command.records? : Command → Option (List EngineRecord)
  | .registryChanges records => some records
  | _ => none

/-- Sessions are acquired in any way and each is released once; a call fails where
`fails` lets it. -/
def Lifecycle (capacity : String → Nat) (fails : SessionThread → Bool) (pool : SessionPool) :
    Turn Call Command → Prop
  | .start (.acquire _) => True
  | .start (.release sid) => HandedOut pool.toShared sid ∧ ¬ ReleaseCalled pool sid
  | .start .reconcile => False
  | .move _ => True
  | .fail i => ∀ t ∈ pool.threads[i]?, fails t = true
  | .outside c => ∃ records ∈ c.records?, Registered capacity records

instance (capacity : String → Nat) (records : List EngineRecord) :
    Decidable (Registered capacity records) :=
  inferInstanceAs (Decidable (∀ r ∈ records, _))

instance (capacity : String → Nat) (fails : SessionThread → Bool) (pool : SessionPool) :
    ∀ turn, Decidable (Lifecycle capacity fails pool turn)
  | .start (.acquire _) | .move _ => isTrue trivial
  | .start (.release _) => inferInstanceAs (Decidable (_ ∧ ¬ _))
  | .start .reconcile => isFalse id
  | .fail i => inferInstanceAs (Decidable (∀ t ∈ pool.threads[i]?, fails t = true))
  | .outside c => inferInstanceAs (Decidable (∃ records ∈ c.records?, _))

/-- The writes of a session's record may fail. -/
abbrev RecordsMayFail (capacity : String → Nat) : SessionPool → Turn Call Command → Prop :=
  Lifecycle capacity writesRecord

/-- An acquisition fails only while it holds no reservation. -/
abbrev ReservationsKept (capacity : String → Nat) : SessionPool → Turn Call Command → Prop :=
  Lifecycle capacity reservesNothing

section Effects

variable {s : SessionShared} {c : Command} {sid : SessionId} {i : String}

/-- The session whose record or slot the command changes. -/
def Command.touches : Command → Option SessionId
  | .hincrby _ delta sid => if delta < 0 then some sid else none
  | .hsetSession sid _ | .sessionExpires sid => some sid
  | _ => none

theorem givenBack_perform :
    GivenBack (s.perform c) sid ↔ c.givesBack sid = true ∨ GivenBack s sid := by
  simp [GivenBack, Shared.perform]

theorem givesBack_of_touches_ne (h : c.touches ≠ some sid) : c.givesBack sid = false := by
  cases c <;> simp [Command.givesBack, Command.touches] at h ⊢
  exact h

theorem session_perform_ne (h : c.touches ≠ some sid) :
    (s.perform c).store.session sid = s.store.session sid := by
  cases c <;> simp_all [Shared.perform, apply, Command.apply, Command.touches,
    Function.update_of_ne, eq_comm]

theorem liveOn_perform_ne (h : c.touches ≠ some sid) :
    liveOn (s.perform c) i sid = liveOn s i sid := by
  simp [liveOn, session_perform_ne h, givenBack_perform, givesBack_of_touches_ne h]

theorem nextId_le_perform : s.store.nextId ≤ (s.perform c).store.nextId := by
  cases c <;> simp [Shared.perform, apply, Command.apply]

theorem nextId_perform (h : c ≠ .uuid4) : (s.perform c).store.nextId = s.store.nextId := by
  cases c <;> first | rfl | exact absurd rfl h

end Effects

/-- What a call owns of the sessions' slots. -/
inductive Hold
  | free
  /-- A session id has been drawn. -/
  | drawn (sid : SessionId)
  /-- The counter was incremented within the capacity. -/
  | reserved (instanceId : String) (sid : SessionId)
  /-- The counter was incremented beyond the capacity. -/
  | overshot (instanceId : String) (sid : SessionId)
  /-- The session is recorded and not handed out. -/
  | recorded (sid : SessionId)
  /-- The session is to be released. -/
  | toRelease (sid : SessionId)
  /-- The record of the session that is to be released was found. -/
  | found (instanceId : String) (sid : SessionId)
  | released (sid : SessionId)

namespace Hold

/-- The call has incremented the counter of the instance for no session yet. -/
def holds (instanceId : String) : Hold → Bool
  | reserved i _ | overshot i _ => i = instanceId
  | _ => false

/-- The call has found room below the capacity of the instance. -/
def granted (instanceId : String) : Hold → Bool
  | reserved i _ => i = instanceId
  | _ => false

/-- The session that no other call may touch. -/
def owned : Hold → Option SessionId
  | drawn sid | reserved _ sid | overshot _ sid | recorded sid | toRelease sid | found _ sid =>
      some sid
  | free | released _ => none

end Hold

/-- The commands that index a recorded session. -/
def Command.indexes (sid : SessionId) : Command → Bool
  | .expireSession sid' | .saddSessions _ sid' | .saddActive sid' => sid' = sid
  | .saddInstances _ => true
  | _ => false

/-- The commands that follow the decrement of a release. -/
def Command.leaves (sid : SessionId) : Command → Bool
  | .sremSessions _ sid' | .sremActive sid' | .hsetSession sid' _ | .expireSession sid' => sid' = sid
  | _ => false

/-- How an acquisition moves. -/
inductive AcquireMove (capacity : String → Nat) : Hold → SessionStore → Command → Hold → Prop
  | read (s : SessionStore) : AcquireMove capacity .free s .readRegistry .free
  | draw (s : SessionStore) : AcquireMove capacity .free s .uuid4 (.drawn s.nextId)
  | grant (s : SessionStore) (i : String) (sid : SessionId)
      (h : s.activeSessions i + 1 ≤ capacity i) :
      AcquireMove capacity (.drawn sid) s (.hincrby i 1 sid) (.reserved i sid)
  | overshoot (s : SessionStore) (i : String) (sid : SessionId) :
      AcquireMove capacity (.drawn sid) s (.hincrby i 1 sid) (.overshot i sid)
  | rollback (s : SessionStore) (i : String) (sid : SessionId) :
      AcquireMove capacity (.overshot i sid) s (.hincrby i (-1) sid) .free
  | record (s : SessionStore) (i : String) (sid : SessionId) (mapping : Hash)
      (h : activeOn i (Dict.merge [] mapping) = true) (hi : instanceOf mapping = some i) :
      AcquireMove capacity (.reserved i sid) s (.hsetSession sid mapping) (.recorded sid)
  | index (s : SessionStore) (sid : SessionId) (c : Command) (h : c.indexes sid = true) :
      AcquireMove capacity (.recorded sid) s c (.recorded sid)

/-- How a release moves. -/
inductive ReleaseMove : Hold → SessionStore → Command → Hold → Prop
  | find (s : SessionStore) (i : String) (sid : SessionId) (data : Hash)
      (h : s.session sid = some data) (hi : instanceOf data = some i) :
      ReleaseMove (.toRelease sid) s (.hgetallSession sid) (.found i sid)
  | miss (s : SessionStore) (sid : SessionId)
      (h : ∀ data, s.session sid = some data → instanceOf data = none) :
      ReleaseMove (.toRelease sid) s (.hgetallSession sid) .free
  | giveBack (s : SessionStore) (i : String) (sid : SessionId) :
      ReleaseMove (.found i sid) s (.hincrby i (-1) sid) (.released sid)
  | leave (s : SessionStore) (sid : SessionId) (c : Command) (h : c.leaves sid = true) :
      ReleaseMove (.released sid) s c (.released sid)

def slotMove (capacity : String → Nat) : Call → Hold → SessionStore → Command → Hold → Prop
  | .acquire _ => AcquireMove capacity
  | .release _ => ReleaseMove
  | .reconcile => fun _ _ _ _ => False

def slotStart : Call → Hold
  | .release sid => .toRelease sid
  | .acquire _ | .reconcile => .free

/-- What a call owns when it returns. -/
def slotEnd : Call → Reply → Hold → Prop
  | .acquire _, .allocated none, l => l = .free
  | .acquire _, .allocated (some a), l => l = .recorded a.sessionId
  | .release sid, .released _, l => l = .free ∨ l = .released sid
  | _, _, _ => False

section Protocol

variable {capacity : String → Nat}

abbrev RegisteredStore (capacity : String → Nat) (s : SessionStore) : Prop :=
  Registered capacity s.registry

theorem activeOn_sessionMapping (request : SessionRequest) {i : String} (hi : i ≠ "") :
    activeOn i (Dict.merge [] (sessionMapping request i)) = true ∧
      instanceOf (sessionMapping request i) = some i := by
  simp [sessionMapping, activeOn, instanceOf, EngineRecord.field, EngineRecord.nonempty, Dict.set,
    Dict.get?_cons, FieldText.asText, hi]

theorem follows_establish (request : SessionRequest) (sid : SessionId) {worker : EngineRecord}
    (hi : worker.instanceId ≠ "") :
    (establish request sid worker).Follows (AcquireMove capacity) (RegisteredStore capacity)
      (fun a l => ∃ allocation, a = some allocation ∧ l = .recorded allocation.sessionId)
      (.reserved worker.instanceId sid) := by
  obtain ⟨hactive, hinstance⟩ := activeOn_sessionMapping request hi
  intro s _
  refine ⟨_, .record s _ sid _ hactive hinstance, ?_⟩
  intro s _
  refine ⟨_, .index s sid _ (by simp [Command.indexes]), ?_⟩
  intro s _
  refine ⟨_, .index s sid _ (by simp [Command.indexes]), ?_⟩
  intro s _
  refine ⟨_, .index s sid _ (by simp [Command.indexes]), ?_⟩
  intro s _
  refine ⟨_, .index s sid _ (by simp [Command.indexes]), ?_⟩
  exact ⟨_, rfl, rfl⟩

/-- How an acquisition ends: with nothing, or with a session it has recorded. -/
def acquired (a : Option WorkerAllocation) (l : Hold) : Prop :=
  match a with
  | none => l = .free
  | some allocation => l = .recorded allocation.sessionId

theorem follows_establish_acquired (request : SessionRequest) (sid : SessionId)
    {worker : EngineRecord} (hi : worker.instanceId ≠ "") :
    (establish request sid worker).Follows (AcquireMove capacity) (RegisteredStore capacity)
      acquired (.reserved worker.instanceId sid) := by
  apply Program.follows_mono (follows_establish request sid hi)
  rintro a l ⟨allocation, rfl, rfl⟩
  rfl

/-- The overshoot is rolled back before the next worker is tried. -/
theorem follows_rollback {i : String} {sid : SessionId} {next : Op (Option WorkerAllocation)}
    (h : next.Follows (AcquireMove capacity) (RegisteredStore capacity) acquired .free) :
    (hincrby i (-1) sid >>= fun _ => next).Follows (AcquireMove capacity)
      (RegisteredStore capacity) acquired (.overshot i sid) := by
  apply follows_hincrby.mpr
  intro s _
  exact ⟨_, .rollback s i sid, h⟩

theorem follows_acquireFromList (request : SessionRequest) {workers : List EngineRecord}
    (h : Registered capacity workers) :
    (acquireFromList request workers).Follows (AcquireMove capacity) (RegisteredStore capacity)
      acquired .free := by
  induction workers with
  | nil => rfl
  | cons worker workers ih =>
      obtain ⟨hname, hcapacity⟩ := h worker List.mem_cons_self
      have hrest := ih fun r hr => h r (List.mem_cons_of_mem _ hr)
      apply follows_uuid4.mpr
      intro s _
      refine ⟨_, .draw s, follows_hincrby.mpr ?_⟩
      intro s' _
      -- the new count decides between the reservation and the rollback
      by_cases hfits : s'.activeSessions worker.instanceId + 1 ≤ worker.capacity
      · refine ⟨_, .grant s' _ _ (Int.le_trans hfits hcapacity), ?_⟩
        rw [if_pos hfits]
        exact follows_establish_acquired request _ hname
      · refine ⟨_, .overshoot s' _ _, ?_⟩
        rw [if_neg hfits]
        exact follows_rollback hrest

theorem follows_acquireAvailable (request : SessionRequest) {workers : List EngineRecord}
    (h : Registered capacity workers) :
    (acquireAvailable request workers).Follows (AcquireMove capacity) (RegisteredStore capacity)
      acquired .free := by
  cases workers with
  | nil => rfl
  | cons worker workers =>
      obtain ⟨hname, hcapacity⟩ := h worker List.mem_cons_self
      have hrest := follows_acquireFromList request fun r hr => h r (List.mem_cons_of_mem _ hr)
      apply follows_uuid4.mpr
      intro s _
      refine ⟨_, .draw s, follows_hincrby.mpr ?_⟩
      intro s' _
      by_cases hover : s'.activeSessions worker.instanceId + 1 > worker.capacity
      · refine ⟨_, .overshoot s' _ _, ?_⟩
        rw [if_pos hover]
        apply follows_rollback
        split
        · exact hrest
        · rfl
      · refine ⟨_, .grant s' _ _ (Int.le_trans (not_lt.mp hover) hcapacity), ?_⟩
        rw [if_neg hover]
        exact follows_establish_acquired request _ hname

theorem follows_acquireWorker (request : SessionRequest) :
    (acquireWorker request).Follows (AcquireMove capacity) (RegisteredStore capacity)
      acquired .free := by
  intro s hs
  refine ⟨_, .read s, ?_⟩
  apply follows_acquireAvailable
  intro r hr
  exact hs r (Wanted.mem_getAvailable hr).1

theorem follows_releaseWorker (sid : SessionId) :
    (releaseWorker sid).Follows ReleaseMove (RegisteredStore capacity)
      (fun _ l => l = .free ∨ l = .released sid) (.toRelease sid) := by
  apply Program.follows_perform_bind.mpr
  intro s _
  rcases hdata : s.session sid with _ | data
  · refine ⟨_, .miss s sid fun data h => ?_, Or.inl rfl⟩
    rw [hdata] at h
    cases h
  · simp only [releaseFound]
    rcases hi : instanceOf data with _ | i
    · refine ⟨_, .miss s sid fun data' h => ?_, Or.inl rfl⟩
      obtain rfl := Option.some.inj (hdata.symm.trans h)
      exact hi
    · refine ⟨_, .find s i sid data hdata hi, ?_⟩
      intro s _
      refine ⟨_, .giveBack s i sid, ?_⟩
      intro s _
      refine ⟨_, .leave s sid _ (by simp [Command.leaves]), ?_⟩
      intro s _
      refine ⟨_, .leave s sid _ (by simp [Command.leaves]), ?_⟩
      intro s _
      refine ⟨_, .leave s sid _ (by simp [Command.leaves]), ?_⟩
      intro s _
      refine ⟨_, .leave s sid _ (by simp [Command.leaves]), ?_⟩
      exact Or.inr rfl

theorem follows_code {fails : SessionThread → Bool} {pool : SessionPool} {c : Call}
    (h : Lifecycle capacity fails pool (.start c)) :
    c.code.Follows (slotMove capacity c) (RegisteredStore capacity) (slotEnd c) (slotStart c) := by
  cases c with
  | acquire request =>
      apply Program.follows_bind.mpr
      apply Program.follows_mono (follows_acquireWorker request)
      rintro (_ | a) l rfl <;> rfl
  | release sid =>
      apply Program.follows_bind.mpr
      exact Program.follows_mono (follows_releaseWorker sid) fun _ _ hl => hl
  | reconcile => exact h.elim

end Protocol

/-- Nothing was recorded or given back under the id. -/
structure Unborn (s : SessionShared) (sid : SessionId) : Prop where
  session : s.store.session sid = none
  notGiven : ¬ GivenBack s sid

/-- What the local state of a call says about the store. -/
def Hold.Sound (s : SessionShared) : Hold → Prop
  | .free => True
  | .drawn sid | .reserved _ sid | .overshot _ sid => sid < s.store.nextId ∧ Unborn s sid
  | .recorded sid | .toRelease sid => ∃ i, liveOn s i sid = true
  | .found i sid => liveOn s i sid = true
  | .released sid => GivenBack s sid

abbrev Holder := Local Call SessionStore Hold

/-- The sessions that the calls own. -/
def ownedBy (gs : Multiset Holder) : Multiset SessionId := gs.filterMap (·.state.owned)

/-- A release of the session is under way or has returned. -/
def Releasing (s : SessionShared) (gs : Multiset Holder) (sid : SessionId) : Prop :=
  (∃ g ∈ gs, g.call = .release sid) ∨ ∃ x ∈ s.returned, x.call = .release sid

/-- The counters against the sessions and the calls. -/
structure Ledger (capacity : String → Nat) (s : SessionShared) (gs : Multiset Holder) : Prop where
  registry : RegisteredStore capacity s.store
  balance : ∀ i, s.store.activeSessions i = live s i + gs.countP fun g => g.state.holds i
  fits : ∀ i, live s i + (gs.countP fun g => g.state.granted i) ≤ capacity i
  unique : (ownedBy gs).Nodup
  fresh : ∀ sid, s.store.nextId ≤ sid → Unborn s sid
  sound : ∀ g ∈ gs, g.state.Sound s
  handed : ∀ sid, HandedOut s sid →
    Releasing s gs sid ∨ sid ∉ ownedBy gs ∧ ∃ i, liveOn s i sid = true

section Ledger

variable {capacity : String → Nat} {s : SessionShared} {c : Command} {sid : SessionId}
  {i : String} {l : Hold} {g : Holder} {gs : Multiset Holder}

theorem liveOn_iff : liveOn s i sid = true ↔
    (∃ data, s.store.session sid = some data ∧ activeOn i data = true) ∧ ¬ GivenBack s sid := by
  simp [liveOn, Option.any_eq_true]

theorem Unborn.not_live (h : Unborn s sid) : liveOn s i sid = false := by
  simp [liveOn, h.session]

theorem Unborn.perform (h : Unborn s sid) (hne : c.touches ≠ some sid) :
    Unborn (s.perform c) sid := by
  constructor
  · rw [session_perform_ne hne]
    exact h.session
  · simp [givenBack_perform, givesBack_of_touches_ne hne, h.notGiven]

/-- A command that touches no session of the call leaves what its state says. -/
theorem Hold.Sound.perform (h : l.Sound s) (hne : ∀ sid, l.owned = some sid → c.touches ≠ some sid) :
    l.Sound (s.perform c) := by
  cases l with
  | free => trivial
  | drawn sid =>
      exact ⟨h.1.trans_le nextId_le_perform, h.2.perform (hne sid rfl)⟩
  | reserved i sid =>
      exact ⟨h.1.trans_le nextId_le_perform, h.2.perform (hne sid rfl)⟩
  | overshot i sid =>
      exact ⟨h.1.trans_le nextId_le_perform, h.2.perform (hne sid rfl)⟩
  | recorded sid =>
      obtain ⟨i, hi⟩ := h
      exact ⟨i, (liveOn_perform_ne (hne sid rfl)).trans hi⟩
  | toRelease sid =>
      obtain ⟨i, hi⟩ := h
      exact ⟨i, (liveOn_perform_ne (hne sid rfl)).trans hi⟩
  | found i sid => exact (liveOn_perform_ne (hne sid rfl)).trans h
  | released sid => exact givenBack_perform.mpr (Or.inr h)

/-- A session that a call owns was not given back, and its id was drawn. -/
theorem Hold.Sound.not_given (h : l.Sound s) (hl : l.owned = some sid) : ¬ GivenBack s sid := by
  cases l with
  | free | released _ => cases hl
  | drawn sid' | reserved i sid' | overshot i sid' =>
      cases hl
      exact h.2.notGiven
  | recorded sid' | toRelease sid' =>
      cases hl
      obtain ⟨i, hi⟩ := h
      exact (liveOn_iff.mp hi).2
  | found i sid' =>
      cases hl
      exact (liveOn_iff.mp h).2

theorem lt_of_live (hfresh : ∀ sid, s.store.nextId ≤ sid → Unborn s sid)
    (h : liveOn s i sid = true) : sid < s.store.nextId := by
  by_contra hge
  rw [(hfresh sid (not_lt.mp hge)).not_live] at h
  cases h

theorem Hold.Sound.lt (hfresh : ∀ sid, s.store.nextId ≤ sid → Unborn s sid) (h : l.Sound s)
    (hl : l.owned = some sid) : sid < s.store.nextId := by
  cases l with
  | free | released _ => cases hl
  | drawn sid' | reserved i sid' | overshot i sid' =>
      cases hl
      exact h.1
  | recorded sid' | toRelease sid' =>
      cases hl
      obtain ⟨i, hi⟩ := h
      exact lt_of_live hfresh hi
  | found i sid' =>
      cases hl
      exact lt_of_live hfresh h

theorem live_perform (h : c.touches = some sid) (hsid : sid < s.store.nextId) :
    live (s.perform c) i + (liveOn s i sid).toNat =
      live s i + (liveOn (s.perform c) i sid).toNat := by
  have hnext : (s.perform c).store.nextId = s.store.nextId := by
    apply nextId_perform
    rintro rfl
    cases h
  simp only [live, hnext]
  apply countBelow_update hsid
  intro y _ hy
  refine (liveOn_perform_ne ?_).symm
  rw [h]
  exact fun heq => hy (Option.some.inj heq).symm

theorem live_perform_of_touches (hfresh : ∀ sid, s.store.nextId ≤ sid → Unborn s sid)
    (h : c.touches = none) : live (s.perform c) i = live s i := by
  have hsame (sid : SessionId) : liveOn (s.perform c) i sid = liveOn s i sid := by
    apply liveOn_perform_ne
    simp [h]
  have htest : liveOn (s.perform c) i = liveOn s i := funext hsame
  by_cases hc : c = .uuid4
  · subst hc
    have hnew : (liveOn s i s.store.nextId).toNat = 0 := by
      rw [(hfresh _ le_rfl).not_live]
      rfl
    have hsucc := countBelow_succ (n := s.store.nextId) (p := liveOn s i)
    rw [hnew] at hsucc
    simp only [live, htest]
    exact hsucc
  · simp only [live, htest, nextId_perform hc]

theorem mem_ownedBy : sid ∈ ownedBy gs ↔ ∃ g ∈ gs, g.state.owned = some sid := by
  simp [ownedBy, Multiset.mem_filterMap]

theorem ownedBy_cons : ownedBy (g ::ₘ gs) = (g.state.owned.elim 0 fun sid => {sid}) + ownedBy gs := by
  rcases h : g.state.owned with _ | sid
  · simpa [ownedBy] using Multiset.filterMap_cons_none (f := fun g : Holder => g.state.owned) g gs h
  · simpa [ownedBy] using
      Multiset.filterMap_cons_some (fun g : Holder => g.state.owned) g gs h

/-- What one call owns, no other call owns. -/
theorem Ledger.not_owned (h : Ledger capacity s (g ::ₘ gs)) (hg : g.state.owned = some sid) :
    sid ∉ ownedBy gs := by
  have hunique := h.unique
  rw [ownedBy_cons, hg] at hunique
  exact (Multiset.nodup_cons.mp (by simpa using hunique)).1

/-- The session a command touches is no other call's. -/
theorem Ledger.not_touched (h : Ledger capacity s (g ::ₘ gs))
    (htouch : ∀ sid, c.touches = some sid → g.state.owned = some sid ∨ GivenBack s sid)
    (hc : c.touches = some sid) : sid ∉ ownedBy gs := by
  intro hmem
  rcases htouch sid hc with hown | hgiven
  · exact h.not_owned hown hmem
  · obtain ⟨g', hg', hown⟩ := mem_ownedBy.mp hmem
    exact (h.sound g' (Multiset.mem_cons_of_mem hg')).not_given hown hgiven

/-- A call moves on: its own part of the ledger is all there is to check. -/
theorem Ledger.moved (h : Ledger capacity s (g ::ₘ gs))
    (hregistry : RegisteredStore capacity (s.perform c).store)
    (htouch : ∀ sid, c.touches = some sid → g.state.owned = some sid ∨ GivenBack s sid)
    (howned : l.owned = g.state.owned ∨ l.owned = none ∨
      c = .uuid4 ∧ l.owned = some s.store.nextId)
    (hbalance : ∀ i, (s.perform c).store.activeSessions i + live s i + (g.state.holds i).toNat =
      s.store.activeSessions i + live (s.perform c) i + (l.holds i).toNat)
    (hfits : ∀ i, live (s.perform c) i + (l.granted i).toNat +
      (gs.countP fun g => g.state.granted i) ≤ capacity i)
    (hsound : l.Sound (s.perform c)) :
    Ledger capacity (s.perform c) ({ g with state := l } ::ₘ gs) := by
  have hothers {sid : SessionId} (hc : c.touches = some sid) : sid ∉ ownedBy gs :=
    h.not_touched htouch hc
  have hunowned {sid : SessionId} (hsid : sid ∉ ownedBy (g ::ₘ gs)) (hgiven : ¬ GivenBack s sid) :
      c.touches ≠ some sid := by
    intro hc
    rcases htouch sid hc with hown | hback
    · exact hsid (mem_ownedBy.mpr ⟨g, Multiset.mem_cons_self g gs, hown⟩)
    · exact hgiven hback
  have hfresh_owned {sid : SessionId} (hsid : s.store.nextId ≤ sid) : sid ∉ ownedBy (g ::ₘ gs) := by
    intro hmem
    obtain ⟨g', hg', hown⟩ := mem_ownedBy.mp hmem
    exact absurd ((h.sound g' hg').lt h.fresh hown) (not_lt.mpr hsid)
  constructor
  case registry => exact hregistry
  case balance =>
    intro i
    have hold := h.balance i
    have hstep := hbalance i
    rw [Multiset.countP_cons] at hold ⊢
    cases hg : g.state.holds i <;> cases hl : l.holds i <;> simp [hg, hl] at hold hstep ⊢ <;> omega
  case fits =>
    intro i
    have hstep := hfits i
    rw [Multiset.countP_cons]
    cases hl : l.granted i <;> simp [hl] at hstep ⊢ <;> omega
  case unique =>
    have hunique := h.unique
    rw [ownedBy_cons] at hunique ⊢
    rcases howned with heq | hnone | ⟨_, hnew⟩
    · rw [heq]
      exact hunique
    · simpa [hnone] using (Multiset.nodup_add.mp hunique).2.1
    · rw [hnew]
      have hmem : s.store.nextId ∉ ownedBy gs := by
        intro hmem
        apply hfresh_owned le_rfl
        rw [ownedBy_cons]
        exact Multiset.mem_add.mpr (Or.inr hmem)
      simpa [hmem] using (Multiset.nodup_add.mp hunique).2.1
  case fresh =>
    intro sid hsid
    have hsid' := nextId_le_perform.trans hsid
    exact (h.fresh sid hsid').perform (hunowned (hfresh_owned hsid') (h.fresh sid hsid').notGiven)
  case sound =>
    intro g' hg'
    rcases Multiset.mem_cons.mp hg' with rfl | hg'
    · exact hsound
    · apply (h.sound g' (Multiset.mem_cons_of_mem hg')).perform
      intro sid hown hc
      exact hothers hc (mem_ownedBy.mpr ⟨g', hg', hown⟩)
  case handed =>
    intro sid hsid
    rcases h.handed sid hsid with (⟨g', hg', hcall⟩ | hreturned) | ⟨hnot, i, hlive⟩
    · left
      left
      rcases Multiset.mem_cons.mp hg' with rfl | hg'
      · exact ⟨_, Multiset.mem_cons_self _ _, hcall⟩
      · exact ⟨g', Multiset.mem_cons_of_mem hg', hcall⟩
    · exact Or.inl (Or.inr hreturned)
    · right
      constructor
      · rw [ownedBy_cons] at hnot ⊢
        rcases howned with heq | hnone | ⟨_, hnew⟩
        · rw [heq]
          exact hnot
        · simp only [hnone, Option.elim_none, zero_add]
          exact fun hmem => hnot (Multiset.mem_add.mpr (Or.inr hmem))
        · have hlt := lt_of_live h.fresh hlive
          simp only [hnew, Option.elim_some, Multiset.singleton_add, Multiset.mem_cons, not_or]
          exact ⟨Nat.ne_of_lt hlt, fun hmem => hnot (Multiset.mem_add.mpr (Or.inr hmem))⟩
      · exact ⟨i, (liveOn_perform_ne (hunowned hnot (liveOn_iff.mp hlive).2)).trans hlive⟩

theorem Ledger.balance_cons (h : Ledger capacity s (g ::ₘ gs)) (i : String) :
    s.store.activeSessions i =
      live s i + (g.state.holds i).toNat + gs.countP fun g => g.state.holds i := by
  have := h.balance i
  rw [Multiset.countP_cons] at this
  cases hg : g.state.holds i <;> simp [hg] at this ⊢ <;> omega

theorem Ledger.fits_cons (h : Ledger capacity s (g ::ₘ gs)) (i : String) :
    live s i + (g.state.granted i).toNat + (gs.countP fun g => g.state.granted i) ≤ capacity i := by
  have := h.fits i
  rw [Multiset.countP_cons] at this
  cases hg : g.state.granted i <;> simp [hg] at this ⊢ <;> omega

/-- A move that touches no session and no counter. -/
theorem Ledger.quiet (h : Ledger capacity s (g ::ₘ gs)) (htouch : c.touches = none)
    (hregistry : (s.perform c).store.registry = s.store.registry)
    (hactive : (s.perform c).store.activeSessions = s.store.activeSessions)
    (hholds : ∀ i, l.holds i = g.state.holds i) (hgranted : ∀ i, l.granted i = g.state.granted i)
    (howned : l.owned = g.state.owned ∨ l.owned = none ∨
      c = .uuid4 ∧ l.owned = some s.store.nextId)
    (hsound : l.Sound (s.perform c)) :
    Ledger capacity (s.perform c) ({ g with state := l } ::ₘ gs) := by
  have hlive (i : String) : live (s.perform c) i = live s i :=
    live_perform_of_touches h.fresh htouch
  refine h.moved ?_ ?_ howned ?_ ?_ hsound
  · rw [RegisteredStore, hregistry]
    exact h.registry
  · intro sid hc
    rw [htouch] at hc
    cases hc
  · intro i
    rw [hactive, hlive, hholds]
  · intro i
    rw [hlive, hgranted]
    exact h.fits_cons i

theorem activeOn_unique {i j : String} {data : Hash} (hi : activeOn i data = true)
    (hj : activeOn j data = true) : i = j := by
  simp only [activeOn, Bool.and_eq_true, decide_eq_true_eq] at hi hj
  exact Option.some.inj (hi.1.symm.trans hj.1)

theorem countP_granted_le (gs : Multiset Holder) (i : String) :
    (gs.countP fun g => g.state.granted i) ≤ gs.countP fun g => g.state.holds i := by
  induction gs using Multiset.induction_on with
  | empty => simp
  | cons g gs ih =>
      have hg : g.state.granted i = true → g.state.holds i = true := by
        cases g.state <;> simp [Hold.granted, Hold.holds]
      simp only [Multiset.countP_cons]
      cases hgranted : g.state.granted i with
      | false => simp only [Bool.false_eq_true, if_false]; omega
      | true => simp only [hg hgranted, if_true]; omega

/-- The session of a call that has not recorded it is not live, before and after. -/
theorem live_unborn (hsid : sid < s.store.nextId) (hunborn : Unborn s sid) (hc : c.touches = some sid)
    (hgives : c.givesBack sid = true) : live (s.perform c) i = live s i := by
  have hlive := live_perform (i := i) hc hsid
  have hafter : liveOn (s.perform c) i sid = false := by
    by_contra hne
    have := (liveOn_iff.mp (Bool.not_eq_false _ ▸ hne)).2
    exact this (givenBack_perform.mpr (Or.inl hgives))
  rw [hunborn.not_live, hafter] at hlive
  exact hlive

theorem activeSessions_hincrby (s : SessionShared) (i j : String) (delta : Int) (sid : SessionId) :
    (s.perform (.hincrby i delta sid)).store.activeSessions j =
      s.store.activeSessions j + if j = i then delta else 0 := by
  by_cases hj : j = i
  · subst hj
    simp [Shared.perform, apply, Command.apply]
  · simp [Shared.perform, apply, Command.apply, hj]

/-- The counter is incremented before a session is recorded. -/
theorem Ledger.incremented (h : Ledger capacity s (g ::ₘ gs)) (hg : g.state = .drawn sid)
    (hholds : ∀ j, l.holds j = decide (i = j)) (howned : l.owned = some sid)
    (hfits : ∀ j, l.granted j = true → i = j ∧ s.store.activeSessions i + 1 ≤ capacity i)
    (hsound : l.Sound (s.perform (.hincrby i 1 sid))) :
    Ledger capacity (s.perform (.hincrby i 1 sid)) ({ g with state := l } ::ₘ gs) := by
  have hlive (j : String) : live (s.perform (.hincrby i 1 sid)) j = live s j :=
    live_perform_of_touches h.fresh rfl
  refine h.moved h.registry ?_ ?_ ?_ ?_ hsound
  · intro sid' hc
    simp [Command.touches] at hc
  · exact Or.inl (howned.trans (by rw [hg]; rfl))
  · intro j
    rw [activeSessions_hincrby, hlive, hholds, hg]
    by_cases hj : i = j
    · subst hj
      simp [Hold.holds]
      omega
    · simp [Hold.holds, hj, Ne.symm hj]
  · intro j
    have hfit := h.fits_cons j
    rw [hlive]
    cases hgranted : l.granted j with
    | false =>
        simp only [Bool.toNat_false]
        omega
    | true =>
        obtain ⟨rfl, hroom⟩ := hfits j hgranted
        have hle := countP_granted_le gs i
        have hbalance := h.balance_cons i
        simp only [Bool.toNat_true]
        omega

theorem Ledger.rolledBack (h : Ledger capacity s (g ::ₘ gs)) (hg : g.state = .overshot i sid) :
    Ledger capacity (s.perform (.hincrby i (-1) sid)) ({ g with state := .free } ::ₘ gs) := by
  have hsound := h.sound g (Multiset.mem_cons_self g gs)
  rw [hg] at hsound
  have hlive (j : String) : live (s.perform (.hincrby i (-1) sid)) j = live s j :=
    live_unborn hsound.1 hsound.2 rfl (by simp [Command.givesBack])
  refine h.moved h.registry ?_ (Or.inr (Or.inl rfl)) ?_ ?_ trivial
  · intro sid' hc
    left
    rw [hg]
    simpa [Command.touches, Hold.owned] using hc
  · intro j
    rw [activeSessions_hincrby, hlive, hg]
    by_cases hj : i = j
    · subst hj
      simp [Hold.holds]
      omega
    · simp [Hold.holds, hj, Ne.symm hj]
  · intro j
    have hfit := h.fits_cons j
    have hfree : Hold.granted j .free = false := rfl
    rw [hlive, hfree, Bool.toNat_false]
    omega

/-- The write of the record turns a reservation into a live session. -/
theorem Ledger.recordWritten (h : Ledger capacity s (g ::ₘ gs)) (hg : g.state = .reserved i sid)
    {mapping : Hash} (hactive : activeOn i (Dict.merge [] mapping) = true) :
    Ledger capacity (s.perform (.hsetSession sid mapping))
      ({ g with state := .recorded sid } ::ₘ gs) := by
  have hsound := h.sound g (Multiset.mem_cons_self g gs)
  rw [hg] at hsound
  obtain ⟨hlt, hunborn⟩ := hsound
  have hnot : ¬ GivenBack (s.perform (.hsetSession sid mapping)) sid := by
    simp [givenBack_perform, Command.givesBack, hunborn.notGiven]
  have hsession : (s.perform (.hsetSession sid mapping)).store.session sid =
      some (Dict.merge [] mapping) := by
    simp [Shared.perform, apply, Command.apply, hunborn.session]
  have hafter (j : String) :
      liveOn (s.perform (.hsetSession sid mapping)) j sid = decide (i = j) := by
    by_cases hj : i = j
    · subst hj
      simp [liveOn, hsession, hactive, hnot]
    · have hother : activeOn j (Dict.merge [] mapping) = false := by
        by_contra hne
        exact hj (activeOn_unique hactive (Bool.not_eq_false _ ▸ hne))
      simp [liveOn, hsession, hother, hj]
  have hlive (j : String) : live (s.perform (.hsetSession sid mapping)) j =
      live s j + (decide (i = j)).toNat := by
    have := live_perform (i := j) (c := .hsetSession sid mapping) rfl hlt
    rwa [hunborn.not_live, hafter] at this
  refine h.moved h.registry ?_ ?_ ?_ ?_ ⟨i, by simp [hafter]⟩
  · intro sid' hc
    left
    rw [hg]
    simpa [Command.touches, Hold.owned] using hc
  · exact Or.inl (by rw [hg]; rfl)
  · intro j
    have hcounter : (s.perform (.hsetSession sid mapping)).store.activeSessions j =
        s.store.activeSessions j := rfl
    rw [hcounter, hlive, hg]
    simp [Hold.holds]
    omega
  · intro j
    have hfit := h.fits_cons j
    rw [hg] at hfit
    have hreserved : Hold.granted j (.reserved i sid) = decide (i = j) := rfl
    have hrecorded : Hold.granted j (.recorded sid) = false := rfl
    rw [hreserved] at hfit
    rw [hlive, hrecorded, Bool.toNat_false]
    omega

theorem Ledger.acquireMove (h : Ledger capacity s (g ::ₘ gs))
    (hmove : AcquireMove capacity g.state s.store c l) :
    Ledger capacity (s.perform c) ({ g with state := l } ::ₘ gs) := by
  have hsound := h.sound g (Multiset.mem_cons_self g gs)
  generalize hstate : g.state = state at hmove
  rw [hstate] at hsound
  generalize hstore : s.store = store at hmove
  cases hmove with
  | read => exact h.quiet rfl rfl rfl (by simp [hstate]) (by simp [hstate]) (by simp [hstate]) trivial
  | draw =>
      subst hstore
      have hunborn := h.fresh _ le_rfl
      refine h.quiet rfl rfl rfl ?_ ?_ (Or.inr (Or.inr ⟨rfl, rfl⟩)) ⟨Nat.lt_succ_self _, ?_⟩
      · simp [hstate, Hold.holds]
      · simp [hstate, Hold.granted]
      · exact hunborn.perform (by simp [Command.touches])
  | grant _ i sid hfits =>
      subst hstore
      refine h.incremented hstate (fun _ => rfl) rfl ?_ (hsound.perform (by simp [Command.touches]))
      intro j hj
      exact ⟨of_decide_eq_true hj, hfits⟩
  | overshoot _ i sid =>
      subst hstore
      refine h.incremented hstate (fun _ => rfl) rfl ?_ (hsound.perform (by simp [Command.touches]))
      intro j hj
      cases hj
  | rollback _ i sid => exact h.rolledBack hstate
  | record _ i sid mapping hactive hi => exact h.recordWritten hstate hactive
  | index _ sid c hindex =>
      have htouch : c.touches = none := by cases c <;> first | rfl | cases hindex
      refine h.quiet htouch ?_ ?_ (by simp [hstate]) (by simp [hstate]) (by simp [hstate])
        (hsound.perform (by simp [htouch]))
      · cases c <;> first | rfl | cases hindex
      · cases c <;> first | rfl | cases hindex

/-- The decrement of a release ends the life of its session. -/
theorem Ledger.gaveBack (h : Ledger capacity s (g ::ₘ gs)) (hg : g.state = .found i sid) :
    Ledger capacity (s.perform (.hincrby i (-1) sid)) ({ g with state := .released sid } ::ₘ gs) := by
  have hsound : liveOn s i sid = true := by
    have := h.sound g (Multiset.mem_cons_self g gs)
    rwa [hg] at this
  have hgiven : GivenBack (s.perform (.hincrby i (-1) sid)) sid :=
    givenBack_perform.mpr (Or.inl (by simp [Command.givesBack]))
  have hafter (j : String) : liveOn (s.perform (.hincrby i (-1) sid)) j sid = false := by
    simp [liveOn, hgiven]
  have hbefore (j : String) : liveOn s j sid = decide (i = j) := by
    obtain ⟨⟨data, hdata, hactive⟩, hnot⟩ := liveOn_iff.mp hsound
    by_cases hj : i = j
    · subst hj
      simpa using hsound
    · have hother : activeOn j data = false := by
        by_contra hne
        exact hj (activeOn_unique hactive (Bool.not_eq_false _ ▸ hne))
      simp [liveOn, hdata, hother, hj]
  have hlive (j : String) : live (s.perform (.hincrby i (-1) sid)) j + (decide (i = j)).toNat =
      live s j := by
    have := live_perform (i := j) (c := .hincrby i (-1) sid) rfl (lt_of_live h.fresh hsound)
    rwa [hbefore, hafter] at this
  refine h.moved h.registry ?_ (Or.inr (Or.inl rfl)) ?_ ?_ hgiven
  · intro sid' hc
    left
    rw [hg]
    simpa [Command.touches, Hold.owned] using hc
  · intro j
    have hj := hlive j
    rw [activeSessions_hincrby, hg]
    by_cases heq : i = j
    · subst heq
      simp [Hold.holds] at hj ⊢
      omega
    · simp [Hold.holds, heq, Ne.symm heq] at hj ⊢
      omega
  · intro j
    have hj := hlive j
    have hfit := h.fits_cons j
    have hnone : Hold.granted j (.released sid) = false := rfl
    rw [hnone, Bool.toNat_false]
    omega

/-- What follows the decrement changes no live session. -/
theorem Ledger.left (h : Ledger capacity s (g ::ₘ gs)) (hg : g.state = .released sid)
    (hc : c.leaves sid = true) :
    Ledger capacity (s.perform c) ({ g with state := .released sid } ::ₘ gs) := by
  have hgiven : GivenBack s sid := by
    have := h.sound g (Multiset.mem_cons_self g gs)
    rwa [hg] at this
  have htouch : ∀ sid', c.touches = some sid' → sid' = sid := by
    intro sid' hsid
    cases c <;> simp_all [Command.touches, Command.leaves]
  have hlive (j : String) : live (s.perform c) j = live s j := by
    rcases hsid : c.touches with _ | sid'
    · exact live_perform_of_touches h.fresh hsid
    · obtain rfl := htouch sid' hsid
      have hlt : sid' < s.store.nextId := by
        by_contra hge
        exact (h.fresh sid' (not_lt.mp hge)).notGiven hgiven
      have hstep := live_perform (i := j) hsid hlt
      have hbefore : liveOn s j sid' = false := by simp [liveOn, hgiven]
      have hafter : liveOn (s.perform c) j sid' = false := by
        simp [liveOn, givenBack_perform.mpr (Or.inr hgiven)]
      rwa [hbefore, hafter] at hstep
  have hcounter : (s.perform c).store.activeSessions = s.store.activeSessions := by
    cases c <;> first | rfl | cases hc
  refine h.moved ?_ ?_ (Or.inr (Or.inl rfl)) ?_ ?_ (givenBack_perform.mpr (Or.inr hgiven))
  · have hregistry : (s.perform c).store.registry = s.store.registry := by
      cases c <;> first | rfl | cases hc
    rw [RegisteredStore, hregistry]
    exact h.registry
  · intro sid' hsid
    right
    rw [htouch sid' hsid]
    exact hgiven
  · intro j
    rw [hcounter, hlive, hg]
  · intro j
    have hfit := h.fits_cons j
    have hnone : Hold.granted j (.released sid) = false := rfl
    rw [hlive, hnone, Bool.toNat_false]
    omega

theorem Ledger.releaseMove (h : Ledger capacity s (g ::ₘ gs))
    (hmove : ReleaseMove g.state s.store c l) :
    Ledger capacity (s.perform c) ({ g with state := l } ::ₘ gs) := by
  have hsound := h.sound g (Multiset.mem_cons_self g gs)
  generalize hstate : g.state = state at hmove
  rw [hstate] at hsound
  generalize hstore : s.store = store at hmove
  cases hmove with
  | find _ i sid data hdata hi =>
      subst hstore
      obtain ⟨j, hlive⟩ := hsound
      have hij : i = j := by
        obtain ⟨⟨data', hdata', hactive⟩, _⟩ := liveOn_iff.mp hlive
        obtain rfl := Option.some.inj (hdata.symm.trans hdata')
        simp only [activeOn, hi, Bool.and_eq_true, decide_eq_true_eq, Option.some.injEq] at hactive
        exact hactive.1
      subst hij
      refine h.quiet rfl rfl rfl (by simp [hstate, Hold.holds]) (by simp [hstate, Hold.granted])
        (Or.inl (by rw [hstate]; rfl)) ?_
      exact (liveOn_perform_ne (by simp [Command.touches])).trans hlive
  | miss _ sid hmiss =>
      exact h.quiet rfl rfl rfl (by simp [hstate, Hold.holds]) (by simp [hstate, Hold.granted])
        (Or.inr (Or.inl rfl)) trivial
  | giveBack _ i sid => exact h.gaveBack hstate
  | leave _ sid c hleaves => exact h.left hstate hleaves

/-- What a state says does not depend on the returned calls or on the registry. -/
theorem Hold.Sound.congr {s' : SessionShared} (h : l.Sound s) (hsession : s'.store.session = s.store.session)
    (hnext : s'.store.nextId = s.store.nextId) (hhistory : s'.history = s.history) : l.Sound s' := by
  have hgiven (sid : SessionId) : GivenBack s' sid ↔ GivenBack s sid := by
    simp [GivenBack, hhistory]
  have hlive (i : String) (sid : SessionId) : liveOn s' i sid = liveOn s i sid := by
    simp [liveOn, hsession, hgiven]
  cases l with
  | free => trivial
  | drawn sid | reserved i sid | overshot i sid =>
      obtain ⟨hlt, hnone, hnot⟩ := h
      exact ⟨hnext ▸ hlt, by rw [hsession]; exact hnone, by rwa [hgiven]⟩
  | recorded sid | toRelease sid =>
      obtain ⟨i, hi⟩ := h
      exact ⟨i, (hlive i sid).trans hi⟩
  | found i sid => exact (hlive i sid).trans h
  | released sid => exact (hgiven sid).mpr h

/-- A call that holds no reservation is gone, with or without a result. -/
theorem Ledger.gone (h : Ledger capacity s (g ::ₘ gs)) (hholds : ∀ i, g.state.holds i = false)
    (returned : List (Return Call SessionStore Reply)) (hold : s.returned ⊆ returned)
    (hcall : ∀ sid, g.call = .release sid → ∃ x ∈ returned, x.call = .release sid)
    (hnew : ∀ sid, HandedOut { s with returned } sid → HandedOut s sid ∨
      g.state.owned = some sid ∧ ∃ i, liveOn s i sid = true) :
    Ledger capacity { s with returned } gs := by
  constructor
  case registry => exact h.registry
  case balance =>
    intro i
    have hbalance := h.balance_cons i
    have hsame : live { s with returned } i = live s i := rfl
    rw [hholds] at hbalance
    rw [hsame]
    simpa using hbalance
  case fits =>
    intro i
    have hfits := h.fits_cons i
    have hsame : live { s with returned } i = live s i := rfl
    rw [hsame]
    omega
  case unique =>
    have hunique := h.unique
    rw [ownedBy_cons] at hunique
    exact (Multiset.nodup_add.mp hunique).2.1
  case fresh =>
    intro sid hsid
    have hunborn := h.fresh sid hsid
    exact ⟨hunborn.session, hunborn.notGiven⟩
  case sound =>
    intro g' hg'
    exact (h.sound g' (Multiset.mem_cons_of_mem hg')).congr rfl rfl rfl
  case handed =>
    intro sid hsid
    rcases hnew sid hsid with hhanded | ⟨hown, i, hlive⟩
    · rcases h.handed sid hhanded with (⟨g', hg', hrel⟩ | ⟨x, hx, hrel⟩) | ⟨hnot, i, hlive⟩
      · left
        rcases Multiset.mem_cons.mp hg' with rfl | hg'
        · exact Or.inr (hcall sid hrel)
        · exact Or.inl ⟨g', hg', hrel⟩
      · exact Or.inl (Or.inr ⟨x, hold hx, hrel⟩)
      · right
        refine ⟨fun hmem => hnot ?_, i, hlive⟩
        rw [ownedBy_cons]
        exact Multiset.mem_add.mpr (Or.inr hmem)
    · exact Or.inr ⟨h.not_owned hown, i, hlive⟩

theorem handedOut_cons {x : Return Call SessionStore Reply} :
    HandedOut { s with returned := x :: s.returned } sid ↔
      (∃ a, x.result = .allocated (some a) ∧ a.sessionId = sid) ∨ HandedOut s sid := by
  simp [HandedOut]

/-- A call that ends leaves the ledger in order. -/
theorem Ledger.ended (h : Ledger capacity s (g ::ₘ gs)) {a : Reply}
    (hend : slotEnd g.call a g.state) :
    Ledger capacity { s with returned := ⟨g.call, g.born, a⟩ :: s.returned } gs := by
  have hsound := h.sound g (Multiset.mem_cons_self g gs)
  rcases hcall : g.call with request | sid | _
  · rw [hcall] at hend
    rcases a with (_ | a) | _ | _
    · have hfree : g.state = .free := hend
      apply h.gone
      · simp [hfree, Hold.holds]
      · exact List.subset_cons_self _ _
      · simp [hcall]
      · intro sid hsid
        simpa [handedOut_cons] using Or.inl hsid
    · have hrecorded : g.state = .recorded a.sessionId := hend
      rw [hrecorded] at hsound
      apply h.gone
      · simp [hrecorded, Hold.holds]
      · exact List.subset_cons_self _ _
      · simp [hcall]
      · intro sid hsid
        rcases handedOut_cons.mp hsid with ⟨a', ha', rfl⟩ | hold
        · cases ha'
          exact Or.inr ⟨by rw [hrecorded]; rfl, hsound⟩
        · exact Or.inl hold
    · exact hend.elim
    · exact hend.elim
  · rw [hcall] at hend
    rcases a with _ | state | _
    · exact hend.elim
    · have hdone : g.state = .free ∨ g.state = .released sid := hend
      apply h.gone
      · rcases hdone with hdone | hdone <;> simp [hdone, Hold.holds]
      · exact List.subset_cons_self _ _
      · intro sid' hsid
        exact ⟨_, List.mem_cons_self, hcall ▸ hsid⟩
      · intro sid' hsid
        simpa [handedOut_cons] using Or.inl hsid
    · exact hend.elim
  · rw [hcall] at hend
    exact hend.elim

/-- A call that has just begun. -/
theorem Ledger.begun (h : Ledger capacity s gs) (hholds : ∀ i, g.state.holds i = false)
    (hgranted : ∀ i, g.state.granted i = false) (hsound : g.state.Sound s)
    (howned : g.state.owned = none ∨ ∃ sid, g.state.owned = some sid ∧ g.call = .release sid ∧
      sid ∉ ownedBy gs) : Ledger capacity s (g ::ₘ gs) := by
  constructor
  case registry => exact h.registry
  case balance =>
    intro i
    rw [Multiset.countP_cons_of_neg _ (by simp [hholds])]
    exact h.balance i
  case fits =>
    intro i
    rw [Multiset.countP_cons_of_neg _ (by simp [hgranted])]
    exact h.fits i
  case unique =>
    rw [ownedBy_cons]
    rcases howned with hnone | ⟨sid, hown, _, hnot⟩
    · simpa [hnone] using h.unique
    · simpa [hown, hnot] using h.unique
  case fresh => exact h.fresh
  case sound =>
    intro g' hg'
    rcases Multiset.mem_cons.mp hg' with rfl | hg'
    · exact hsound
    · exact h.sound g' hg'
  case handed =>
    intro sid hsid
    rcases h.handed sid hsid with (⟨g', hg', hrel⟩ | hreturned) | ⟨hnot, hlive⟩
    · exact Or.inl (Or.inl ⟨g', Multiset.mem_cons_of_mem hg', hrel⟩)
    · exact Or.inl (Or.inr hreturned)
    · rcases howned with hnone | ⟨sid', hown, hcall, _⟩
      · right
        rw [ownedBy_cons, hnone]
        simpa using ⟨hnot, hlive⟩
      · by_cases heq : sid' = sid
        · subst heq
          exact Or.inl (Or.inl ⟨g, Multiset.mem_cons_self g gs, hcall⟩)
        · right
          rw [ownedBy_cons, hown]
          simpa [Ne.symm heq] using ⟨hnot, hlive⟩

theorem Ledger.registryChanged (h : Ledger capacity s gs) {records : List EngineRecord}
    (hrecords : Registered capacity records) :
    Ledger capacity { s with store := apply (Command.registryChanges records) s.store } gs where
  registry := hrecords
  balance := h.balance
  fits := h.fits
  unique := h.unique
  fresh sid hsid := ⟨(h.fresh sid hsid).session, (h.fresh sid hsid).notGiven⟩
  sound g hg := (h.sound g hg).congr rfl rfl rfl
  handed := h.handed

end Ledger

section Runs

variable {capacity : String → Nat} {t : SessionThread} {g : Holder} {s : SessionStore}

theorem AcquireMove.reserves_eq {l l' : Hold} {c : Command} (h : AcquireMove capacity l s c l')
    {request : SessionRequest} (hcall : t.call = .acquire request)
    (hnext : t.rest.next? = some c) (i : String) : reserves i t = l.holds i := by
  simp only [reserves, hcall, hnext]
  cases h with
  | read | draw | grant | overshoot => simp [Hold.holds]
  | rollback _ j => simp [Hold.holds, eq_comm]
  | record _ j _ _ _ hj => simp [Hold.holds, hj, eq_comm]
  | index _ _ _ hindexes => cases c <;> first | rfl | cases hindexes

theorem ReleaseMove.not_held {l l' : Hold} {c : Command} (h : ReleaseMove l s c l') (i : String) :
    l.holds i = false := by
  cases h <;> rfl

/-- A call holds a reservation exactly when its next effect gives it back or records it. -/
theorem reserves_eq_holds (h : t.Matches (slotMove capacity) (RegisteredStore capacity) slotEnd g)
    (hs : RegisteredStore capacity s) (i : String) : reserves i t = g.state.holds i := by
  obtain ⟨hcall, _, hfollows⟩ := h
  cases hnext : t.rest.next? with
  | none =>
      obtain ⟨a, hend⟩ := Program.follows_end hfollows hnext
      have hfree : g.state.holds i = false := by
        rcases hg : g.call with request | sid | _ <;> rw [hg] at hend
        · rcases a with (_ | a) | _ | _ <;> first | exact hend.elim | (rw [hend]; rfl)
        · rcases a with _ | state | _ <;>
            first | exact hend.elim | (rcases hend with hend | hend <;> (rw [hend]; rfl))
        · exact hend.elim
      rw [hfree, reserves, hnext]
      cases t.call <;> rfl
  | some c =>
      obtain ⟨l, hmove⟩ := Program.follows_next hfollows hs hnext
      rcases hg : g.call with request | sid | _ <;> rw [hg] at hmove hcall
      · exact hmove.reserves_eq hcall hnext i
      · rw [hmove.not_held, reserves, hcall]
      · exact hmove.elim

/-- A call that may fail holds no reservation. -/
theorem reserves_of_reservesNothing (h : reservesNothing t = true) :
    (∃ request, t.call = .acquire request) ∧ ∀ i, reserves i t = false := by
  rcases hcall : t.call with request | sid | _
  · constructor
    · exact ⟨request, rfl⟩
    · intro i
      rcases hnext : t.rest.next? with _ | c
      · simp [reserves, hcall, hnext]
      · cases c <;> simp [reserves, reservesNothing, hcall, hnext] at h ⊢
        omega
  · simp [reservesNothing, hcall] at h
  · simp [reservesNothing, hcall] at h

/-- Every turn of a run keeps the ledger in order. -/
theorem ledger_preserved : Preserved Call.code (slotMove capacity) (RegisteredStore capacity)
    slotEnd slotStart (ReservationsKept capacity) (Ledger capacity) := by
  constructor
  case code =>
    intro pool c h
    exact follows_code h
  case store =>
    intro s gs h
    exact h.registry
  case start =>
    intro pool gs c hm h hok
    cases c with
    | acquire request =>
        exact h.begun (fun _ => rfl) (fun _ => rfl) trivial (Or.inl rfl)
    | release sid =>
        obtain ⟨hhanded, hnot⟩ := hok
        rcases h.handed sid hhanded with (⟨g, hg, hcall⟩ | hreturned) | ⟨howned, hlive⟩
        · obtain ⟨t, ht, hmatch⟩ := hm.exists_thread hg
          exact (hnot (Or.inl ⟨t, ht, hmatch.call.trans hcall⟩)).elim
        · exact (hnot (Or.inr hreturned)).elim
        · exact h.begun (fun _ => rfl) (fun _ => rfl) hlive (Or.inr ⟨sid, rfl, rfl, howned⟩)
    | reconcile => exact hok.elim
  case move =>
    intro pool g gs i e l h _ _ _ hmove
    rcases hcall : g.call with request | sid | _ <;> rw [hcall] at hmove
    · simpa [hcall] using h.acquireMove hmove
    · simpa [hcall] using h.releaseMove hmove
    · exact hmove.elim
  case done =>
    intro pool g gs a h hend
    exact h.ended hend
  case fail =>
    intro pool t g gs i h hok ht hmatch
    obtain ⟨⟨request, hcall⟩, hreserves⟩ := reserves_of_reservesNothing (hok t ht)
    apply h.gone
    · intro j
      rw [← reserves_eq_holds hmatch h.registry, hreserves]
    · exact List.Subset.refl _
    · simp [← hmatch.call, hcall]
    · intro sid' hsid
      exact Or.inl hsid
  case outside =>
    intro pool gs e hm h hok
    obtain ⟨records, hrecords, hregistered⟩ := hok
    cases e with
    | registryChanges _ =>
        obtain rfl := Option.some.inj hrecords
        exact h.registryChanged hregistered
    | _ => cases hrecords

theorem ledger_fresh {records : List EngineRecord} (h : Registered capacity records) :
    Ledger capacity (Pool.idle (SessionStore.fresh records) : SessionPool).toShared 0 where
  registry := h
  balance _ := rfl
  fits _ := by simp [live, countBelow, Pool.idle, SessionStore.fresh]
  unique := Multiset.nodup_zero
  fresh _ _ := ⟨rfl, by simp [GivenBack, Pool.idle]⟩
  sound _ hg := absurd hg (Multiset.notMem_zero _)
  handed sid h := by simp [HandedOut, Pool.idle] at h

theorem ledger_of_run {registry : List EngineRecord} (hregistry : Registered capacity registry)
    {pool : SessionPool}
    (run : Pool.Run Call.code (ReservationsKept capacity) (Pool.idle (.fresh registry)) pool) :
    ∃ gs, pool.Matches (slotMove capacity) (RegisteredStore capacity) slotEnd gs ∧
      Ledger capacity pool.toShared gs :=
  ledger_preserved.run run ⟨0, Pool.matches_idle _, ledger_fresh hregistry⟩

/-- The counter of an instance counts its live sessions and its reservations. -/
theorem counter_counts {registry : List EngineRecord} (hregistry : Registered capacity registry)
    {pool : SessionPool}
    (run : Pool.Run Call.code (ReservationsKept capacity) (Pool.idle (.fresh registry)) pool)
    (i : String) :
    pool.store.activeSessions i = live pool.toShared i + reservations pool i := by
  obtain ⟨gs, hm, hledger⟩ := ledger_of_run hregistry run
  have hcount : reservations pool i = gs.countP fun g => g.state.holds i :=
    Thread.countP_eq hm fun t g h => reserves_eq_holds h hledger.registry i
  rw [hcount]
  exact hledger.balance i

/-- In every run the counter of an instance is its live sessions and reservations, and its
live sessions fit its capacity, when no acquisition fails while it holds a reservation. -/
theorem sessions_fit {registry : List EngineRecord} (hregistry : Registered capacity registry)
    {pool : SessionPool}
    (run : Pool.Run Call.code (ReservationsKept capacity) (Pool.idle (.fresh registry)) pool)
    (i : String) :
    pool.store.activeSessions i = live pool.toShared i + reservations pool i ∧
      0 ≤ pool.store.activeSessions i ∧ live pool.toShared i ≤ capacity i := by
  have hcounter := counter_counts hregistry run i
  obtain ⟨gs, _, hledger⟩ := ledger_of_run hregistry run
  have hfits := hledger.fits i
  constructor
  · exact hcounter
  constructor
  · omega
  · omega

end Runs

section Samples

def sampleWorker : EngineRecord where
  instanceId := "whisper-rt-1"
  engineId := "whisper"
  stage := "transcribe"
  status := "ready"
  interfaces := ["realtime"]

def sampleRequest : SessionRequest where
  now := 0
  language := "auto"
  model := none
  clientIp := "127.0.0.1"
  engineId := none
  validEngineIds := none

def sampleStart : SessionPool := Pool.idle (.fresh [sampleWorker])

/-- Two acquisitions for one slot; the session of the first is released. -/
def sampleTurns : List (Turn Call Command) :=
  List.flatten [
    [.start (.acquire sampleRequest), .start (.acquire sampleRequest)],
    List.replicate 3 (.move 0), List.replicate 3 (.move 1), List.replicate 6 (.move 0),
    [.start (.release 0), .move 1, .move 1]]

/-- The record of a session cannot be written. -/
def sampleFailure : List (Turn Call Command) :=
  [.start (.acquire sampleRequest), .move 0, .move 0, .move 0, .fail 0]

end Samples

theorem sessions_fit_sample :
    let pool := sampleStart.turns Call.code sampleTurns
    pool.store.activeSessions "whisper-rt-1" =
        live pool.toShared "whisper-rt-1" + reservations pool "whisper-rt-1" ∧
      0 ≤ pool.store.activeSessions "whisper-rt-1" ∧
        live pool.toShared "whisper-rt-1" ≤ 1 := by
  have hregistered : Registered (fun _ => 1) [sampleWorker] := by decide
  have hallowed : Pool.Allowed Call.code (ReservationsKept fun _ => 1) sampleStart sampleTurns := by
    decide +kernel
  exact sessions_fit hregistered (Pool.run_of_allowed hallowed) "whisper-rt-1"

/-- A session whose record is not written keeps its slot. -/
theorem slot_lost_on_failure :
    ¬ ∀ (capacity : String → Nat) (registry : List EngineRecord), Registered capacity registry →
      ∀ pool : SessionPool,
        Pool.Run Call.code (RecordsMayFail capacity) (Pool.idle (.fresh registry)) pool →
        ∀ i, pool.store.activeSessions i = live pool.toShared i + reservations pool i ∧
          0 ≤ pool.store.activeSessions i ∧ live pool.toShared i ≤ capacity i := by
  intro hclaim
  have hregistered : Registered (fun _ => 1) [sampleWorker] := by decide
  have hallowed :
      Pool.Allowed Call.code (RecordsMayFail fun _ => 1) sampleStart sampleFailure := by
    decide +kernel
  have hcounter := (hclaim _ _ hregistered _ (Pool.run_of_allowed hallowed) "whisper-rt-1").1
  revert hcounter
  decide +kernel

end Dalston.Sessions
