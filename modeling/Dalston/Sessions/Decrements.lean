import Dalston.Sessions.Allocator

/-!
# The slot of a session is given back once

A session's slot is given back by a release, which reads the session's record, or
by a reconcile pass, which finds the record gone and the session still in its
instance's set. Each of them looks first and decrements later. The slot is given
back twice when two calls look before either has taken the session out of the set.

## Implementation notes

What the calls know of one session is followed from the moment when the session
is established on its instance. A call that has found the slot to give back
stays in its way until it removes the session from the set.
-/

namespace Dalston.Sessions

open Foundation Registry

/-- The session that a command names. -/
def Command.session? : Command → Option SessionId
  | .hincrby _ _ sid | .hsetCounter _ _ sid | .hsetSession sid _ | .expireSession sid
  | .hgetallSession sid | .existsSession sid | .saddSessions _ sid | .sremSessions _ sid
  | .sismemberSessions _ sid | .saddActive sid | .sremActive sid | .sessionExpires sid => some sid
  | .readRegistry | .uuid4 | .saddInstances _ | .smembersInstances | .smembersActive
  | .registryChanges _ => none

/-- The command gives the slot of the session back to the instance. -/
def Command.decrements (i : String) (sid : SessionId) : Command → Bool
  | .hincrby j delta sid' => j = i && delta < 0 && sid' = sid
  | _ => false

def Command.readsRecord (sid : SessionId) : Command → Bool
  | .hgetallSession sid' => sid' = sid
  | _ => false

/-- How often the slot of the session was given back to the instance. -/
def decrements (s : SessionShared) (i : String) (sid : SessionId) : Nat :=
  s.history.countP (Command.decrements i sid)

/-- The session's record was never read by a release. -/
def Unread (s : SessionShared) (sid : SessionId) : Prop :=
  ∀ c ∈ s.history, c.readsRecord sid = false

/-- The instance that the session's record names. -/
def namedBy (s : SessionStore) (sid : SessionId) : Option String := (s.session sid).bind instanceOf

/-- The session is recorded on the instance and indexed. -/
structure Established (s : SessionStore) (i : String) (sid : SessionId) : Prop where
  drawn : sid < s.nextId
  record : namedBy s sid = some i
  sessions : ∀ j, sid ∈ s.instanceSessions j ↔ j = i
  instances : i ∈ s.instances
  active : sid ∈ s.active

/-- A release of the session has returned its state. -/
def Released (s : SessionShared) (sid : SessionId) : Prop :=
  ∃ x ∈ s.returned, x.call = .release sid ∧ ∃ state, x.result = .released (some state)

/-- A reconcile pass has completed that was begun when the session's record was gone. -/
def Reconciled (s : SessionShared) (sid : SessionId) : Prop :=
  ∃ x ∈ s.returned, x.call = .reconcile ∧ x.born.session sid = none

/-- The call is between finding the slot to give back and leaving the instance's set. -/
def handles (sid : SessionId) (t : SessionThread) : Bool :=
  match t.rest.next? with
  | some (.hincrby _ delta sid') => delta < 0 && sid' = sid
  | some (.hsetCounter _ _ sid') | some (.sremSessions _ sid') => sid' = sid
  | _ => false

/-- What happens to sessions by itself. -/
def Command.happens : Command → Bool
  | .sessionExpires _ | .registryChanges _ => true
  | _ => false

/-- Calls of any kind, and records that expire at any moment. -/
def AnyCalls (_ : SessionPool) : Turn Call Command → Prop
  | .start _ | .move _ => True
  | .fail _ => False
  | .outside c => c.happens = true

/-- Whoever finds the session's slot to give back is the first and the only one. -/
def FoundOnce (sid : SessionId) (pool : SessionPool) (n : Nat) : Command → Prop
  | .hgetallSession sid' =>
      sid' = sid → (namedBy pool.store sid).isSome → Unread pool.toShared sid
  | .sismemberSessions j sid' =>
      sid' = sid → sid ∈ pool.store.instanceSessions j →
        ∀ t ∈ pool.threads.eraseIdx n, handles sid t = false
  | _ => True

def FoundAlone (sid : SessionId) (pool : SessionPool) : Turn Call Command → Prop
  | .move n => ∀ c ∈ pool.next? n, FoundOnce sid pool n c
  | turn => AnyCalls pool turn

instance (s : SessionShared) (sid : SessionId) : Decidable (Unread s sid) :=
  inferInstanceAs (Decidable (∀ c ∈ s.history, _))

instance (sid : SessionId) (pool : SessionPool) (n : Nat) :
    ∀ c, Decidable (FoundOnce sid pool n c)
  | .hgetallSession _ => inferInstanceAs (Decidable (_ → _ → Unread _ _))
  | .sismemberSessions _ _ => inferInstanceAs (Decidable (_ → _ → ∀ t ∈ _, _))
  | .readRegistry | .uuid4 | .hincrby _ _ _ | .hsetCounter _ _ _ | .hsetSession _ _
  | .expireSession _ | .existsSession _ | .saddSessions _ _ | .sremSessions _ _
  | .saddInstances _ | .smembersInstances | .saddActive _ | .sremActive _ | .smembersActive
  | .sessionExpires _ | .registryChanges _ => isTrue trivial

instance (pool : SessionPool) : ∀ turn, Decidable (AnyCalls pool turn)
  | .start _ | .move _ => isTrue trivial
  | .fail _ => isFalse id
  | .outside c => inferInstanceAs (Decidable (c.happens = true))

instance (sid : SessionId) (pool : SessionPool) : ∀ turn, Decidable (FoundAlone sid pool turn)
  | .move n => inferInstanceAs (Decidable (∀ c ∈ pool.next? n, FoundOnce sid pool n c))
  | .start _ => isTrue trivial
  | .fail _ => isFalse id
  | .outside c => inferInstanceAs (Decidable (c.happens = true))

/-- What a call knows of the session. -/
inductive Stand
  /-- It is not about the session, or has not looked yet. -/
  | idle
  | skipped
  /-- The session is in the list of the pass. -/
  | queued
  /-- The record is gone. -/
  | orphaned
  /-- The instances that were not asked yet. -/
  | searching (instances : List String)
  /-- The slot is about to be given back. -/
  | taking (instanceId : String)
  /-- The slot was given back, and the session is about to leave the instance's set. -/
  | leaving (instanceId : String)
  | settled
  /-- The record was found to exist. -/
  | seen

namespace Stand

def takes : Stand → Bool
  | taking _ => true
  | _ => false

def leaves : Stand → Bool
  | leaving _ => true
  | _ => false

/-- The call goes on to the next session of its list. -/
def scans : Stand → Bool
  | queued | settled | seen => true
  | _ => false

end Stand

/-- How a call moves with respect to the session. -/
inductive StandMove (sid : SessionId) : Stand → SessionStore → Command → Stand → Prop
  | elsewhere (l : Stand) (s : SessionStore) (c : Command) (hc : c.session? ≠ some sid)
      (ht : l.takes = false) (hl : l.leaves = false) : StandMove sid l s c l
  | found (s : SessionStore) (i : String) (h : namedBy s sid = some i) :
      StandMove sid .idle s (.hgetallSession sid) (.taking i)
  | notFound (s : SessionStore) (h : namedBy s sid = none) :
      StandMove sid .idle s (.hgetallSession sid) .skipped
  | listed (s : SessionStore) : StandMove sid .idle s .smembersActive .queued
  | unlisted (s : SessionStore) (h : sid ∉ s.active) :
      StandMove sid .idle s .smembersActive .settled
  | present (l : Stand) (s : SessionStore) (hl : l.scans = true) (h : (s.session sid).isSome) :
      StandMove sid l s (.existsSession sid) .seen
  | absent (l : Stand) (s : SessionStore) (hl : l.scans = true) (h : s.session sid = none) :
      StandMove sid l s (.existsSession sid) .orphaned
  | search (s : SessionStore) :
      StandMove sid .orphaned s .smembersInstances (.searching s.instances)
  | hit (s : SessionStore) (i : String) (rest : List String) (h : sid ∈ s.instanceSessions i) :
      StandMove sid (.searching (i :: rest)) s (.sismemberSessions i sid) (.taking i)
  | miss (s : SessionStore) (i : String) (rest : List String) (h : sid ∉ s.instanceSessions i) :
      StandMove sid (.searching (i :: rest)) s (.sismemberSessions i sid) (.searching rest)
  | decrement (s : SessionStore) (i : String) :
      StandMove sid (.taking i) s (.hincrby i (-1) sid) (.leaving i)
  | clamp (s : SessionStore) (i : String) :
      StandMove sid (.leaving i) s (.hsetCounter i 0 sid) (.leaving i)
  | leave (s : SessionStore) (i : String) :
      StandMove sid (.leaving i) s (.sremSessions i sid) .settled
  | unlist (l : Stand) (s : SessionStore) (hl : l = .searching [] ∨ l = .settled) :
      StandMove sid l s (.sremActive sid) .settled
  | mark (s : SessionStore) :
      StandMove sid .settled s (.hsetSession sid [("status", .text "ended")]) .settled
  | expire (s : SessionStore) : StandMove sid .settled s (.expireSession sid) .settled

/-- What a call knows of the session when it returns. -/
def standEnd (sid : SessionId) : Call → Reply → Stand → Prop
  | .acquire _, .allocated _, l => l = .idle
  | .release sid', .released state, l =>
      if sid' = sid then (state.isSome → l = .settled) ∧ (l = .settled ∨ l = .skipped)
      else l = .idle
  | .reconcile, .cleaned _, l => l = .settled ∨ l = .seen
  | _, _, _ => False

/-- The id of the session has been drawn. -/
abbrev Drawn (sid : SessionId) (s : SessionStore) : Prop := sid < s.nextId

section Protocol

variable {sid : SessionId}

theorem follows_establish_other (request : SessionRequest) {sid' : SessionId} (hne : sid' ≠ sid)
    (worker : EngineRecord) :
    (establish request sid' worker).Follows (StandMove sid) (Drawn sid) (fun _ l => l = .idle)
      .idle := by
  have hother : some sid' ≠ some sid := fun h => hne (Option.some.inj h)
  intro s _
  refine ⟨_, .elsewhere _ s _ hother rfl rfl, ?_⟩
  intro s _
  refine ⟨_, .elsewhere _ s _ hother rfl rfl, ?_⟩
  intro s _
  refine ⟨_, .elsewhere _ s _ hother rfl rfl, ?_⟩
  intro s _
  refine ⟨_, .elsewhere _ s _ (by simp [Command.session?]) rfl rfl, ?_⟩
  intro s _
  refine ⟨_, .elsewhere _ s _ hother rfl rfl, ?_⟩
  rfl

/-- An acquisition draws an id of its own. -/
theorem follows_acquireFromList_other (request : SessionRequest) (workers : List EngineRecord) :
    (acquireFromList request workers).Follows (StandMove sid) (Drawn sid) (fun _ l => l = .idle)
      .idle := by
  induction workers with
  | nil => rfl
  | cons worker workers ih =>
      apply follows_uuid4.mpr
      intro s hs
      have hne : s.nextId ≠ sid := Nat.ne_of_gt hs
      have hother : some s.nextId ≠ some sid := fun h => hne (Option.some.inj h)
      refine ⟨_, .elsewhere _ s _ (by simp [Command.session?]) rfl rfl, follows_hincrby.mpr ?_⟩
      intro s' _
      refine ⟨_, .elsewhere _ s' _ hother rfl rfl, ?_⟩
      split
      · exact follows_establish_other request hne worker
      · intro s'' _
        exact ⟨_, .elsewhere _ s'' _ hother rfl rfl, ih⟩

theorem follows_acquireAvailable_other (request : SessionRequest) (workers : List EngineRecord) :
    (acquireAvailable request workers).Follows (StandMove sid) (Drawn sid) (fun _ l => l = .idle)
      .idle := by
  cases workers with
  | nil => rfl
  | cons worker workers =>
      apply follows_uuid4.mpr
      intro s hs
      have hne : s.nextId ≠ sid := Nat.ne_of_gt hs
      have hother : some s.nextId ≠ some sid := fun h => hne (Option.some.inj h)
      refine ⟨_, .elsewhere _ s _ (by simp [Command.session?]) rfl rfl, follows_hincrby.mpr ?_⟩
      intro s' _
      refine ⟨_, .elsewhere _ s' _ hother rfl rfl, ?_⟩
      split
      · intro s'' _
        refine ⟨_, .elsewhere _ s'' _ hother rfl rfl, ?_⟩
        split
        · exact follows_acquireFromList_other request workers
        · rfl
      · exact follows_establish_other request hne worker

/-- The slot of a session is given back, and the session leaves its instance's set. -/
theorem follows_giveBack {A : Type} {Q : A → Stand → Prop} (i : String) {next : Op A}
    (h : next.Follows (StandMove sid) (Drawn sid) Q .settled) :
    (exec (.sremSessions i sid) >>= fun _ => next).Follows (StandMove sid) (Drawn sid) Q
      (.leaving i) := by
  intro s _
  exact ⟨_, .leave s i, h⟩

theorem follows_releaseWorker_self :
    (releaseWorker sid).Follows (StandMove sid) (Drawn sid)
      (fun state l => (state.isSome → l = .settled) ∧ (l = .settled ∨ l = .skipped)) .idle := by
  apply Program.follows_perform_bind.mpr
  intro s _
  rcases hdata : s.session sid with _ | data
  · refine ⟨_, .notFound s (by simp [namedBy, hdata]), ?_⟩
    simp [releaseFound]
  · simp only [releaseFound]
    rcases hi : instanceOf data with _ | i
    · refine ⟨_, .notFound s (by simp [namedBy, hdata, hi]), ?_⟩
      simp [releaseSlot]
    · refine ⟨_, .found s i (by simp [namedBy, hdata, hi]), ?_⟩
      intro s _
      refine ⟨_, .decrement s i, follows_giveBack i ?_⟩
      intro s _
      refine ⟨_, .unlist _ s (Or.inr rfl), ?_⟩
      intro s _
      refine ⟨_, .mark s, ?_⟩
      intro s _
      refine ⟨_, .expire s, ?_⟩
      exact ⟨fun _ => rfl, Or.inl rfl⟩

theorem follows_cleanInstances_self (instances : List String) :
    (cleanInstances sid instances).Follows (StandMove sid) (Drawn sid)
      (fun _ l => l = .searching [] ∨ l = .settled) (.searching instances) := by
  induction instances with
  | nil => exact Or.inl rfl
  | cons i rest ih =>
      apply Program.follows_perform_bind.mpr
      intro s _
      by_cases hmem : sid ∈ s.instanceSessions i
      · refine ⟨_, .hit s i rest hmem, ?_⟩
        rw [if_pos hmem]
        apply follows_hincrby.mpr
        intro s' _
        refine ⟨_, .decrement s' i, ?_⟩
        have hleave : (exec (.sremSessions i sid)).Follows (StandMove sid) (Drawn sid)
            (fun _ l => l = .searching [] ∨ l = .settled) (.leaving i) := by
          intro s _
          exact ⟨_, .leave s i, Or.inr rfl⟩
        simp only [clampCounter]
        split
        · intro s'' _
          exact ⟨_, .clamp s'' i, hleave⟩
        · exact hleave
      · refine ⟨_, .miss s i rest hmem, ?_⟩
        rw [if_neg hmem]
        exact ih

theorem follows_reconcileSession_self {l : Stand} (hl : l.scans = true) :
    (reconcileSession sid).Follows (StandMove sid) (Drawn sid)
      (fun _ l => l = .settled ∨ l = .seen) l := by
  apply Program.follows_perform_bind.mpr
  intro s _
  by_cases hsome : (s.session sid).isSome
  · refine ⟨_, .present l s hl hsome, ?_⟩
    rw [if_pos hsome]
    exact Or.inr rfl
  · refine ⟨_, .absent l s hl (by simpa using hsome), ?_⟩
    rw [if_neg hsome]
    apply Program.follows_perform_bind.mpr
    intro s _
    refine ⟨_, .search s, Program.follows_bind.mpr ?_⟩
    apply Program.follows_mono (follows_cleanInstances_self s.instances)
    intro _ l hend s' _
    exact ⟨_, .unlist l s' hend, Or.inl rfl⟩

section Other

variable {sid' : SessionId} {l : Stand}

theorem follows_cleanInstances_other (hne : sid' ≠ sid) (ht : l.takes = false)
    (hl : l.leaves = false) (instances : List String) :
    (cleanInstances sid' instances).Follows (StandMove sid) (Drawn sid) (fun _ l' => l' = l) l := by
  have hother : some sid' ≠ some sid := fun h => hne (Option.some.inj h)
  induction instances with
  | nil => rfl
  | cons i rest ih =>
      apply Program.follows_perform_bind.mpr
      intro s _
      refine ⟨_, .elsewhere l s _ hother ht hl, ?_⟩
      have hleave : (exec (.sremSessions i sid')).Follows (StandMove sid) (Drawn sid)
          (fun _ l' => l' = l) l := by
        intro s _
        exact ⟨_, .elsewhere l s _ hother ht hl, rfl⟩
      split
      · apply follows_hincrby.mpr
        intro s' _
        refine ⟨_, .elsewhere l s' _ hother ht hl, ?_⟩
        simp only [clampCounter]
        split
        · intro s'' _
          exact ⟨_, .elsewhere l s'' _ hother ht hl, hleave⟩
        · exact hleave
      · exact ih

theorem follows_reconcileSession_other (hne : sid' ≠ sid) (ht : l.takes = false)
    (hl : l.leaves = false) :
    (reconcileSession sid').Follows (StandMove sid) (Drawn sid) (fun _ l' => l' = l) l := by
  have hother : some sid' ≠ some sid := fun h => hne (Option.some.inj h)
  apply Program.follows_perform_bind.mpr
  intro s _
  refine ⟨_, .elsewhere l s _ hother ht hl, ?_⟩
  split
  · rfl
  · apply Program.follows_perform_bind.mpr
    intro s' _
    refine ⟨_, .elsewhere l s' _ (by simp [Command.session?]) ht hl, Program.follows_bind.mpr ?_⟩
    apply Program.follows_mono (follows_cleanInstances_other hne ht hl s'.instances)
    rintro _ _ rfl s'' _
    exact ⟨_, .elsewhere _ s'' _ hother ht hl, rfl⟩

theorem follows_releaseWorker_other (hne : sid' ≠ sid) :
    (releaseWorker sid').Follows (StandMove sid) (Drawn sid) (fun _ l => l = .idle) .idle := by
  have hother : some sid' ≠ some sid := fun h => hne (Option.some.inj h)
  apply Program.follows_perform_bind.mpr
  intro s _
  refine ⟨_, .elsewhere _ s _ hother rfl rfl, ?_⟩
  rcases s.session sid' with _ | data
  · rfl
  · simp only [releaseFound]
    rcases instanceOf data with _ | i
    · rfl
    · intro s _
      refine ⟨_, .elsewhere _ s _ hother rfl rfl, ?_⟩
      intro s _
      refine ⟨_, .elsewhere _ s _ hother rfl rfl, ?_⟩
      intro s _
      refine ⟨_, .elsewhere _ s _ hother rfl rfl, ?_⟩
      intro s _
      refine ⟨_, .elsewhere _ s _ hother rfl rfl, ?_⟩
      intro s _
      exact ⟨_, .elsewhere _ s _ hother rfl rfl, rfl⟩

end Other

theorem Stand.not_takes_of_scans {l : Stand} (h : l.scans = true) :
    l.takes = false ∧ l.leaves = false := by
  cases l <;> simp [scans, takes, leaves] at h ⊢

/-- The pass settles the session if it is still in the list. -/
theorem follows_reconcileSessions (sids : List SessionId) (cleanedCount : Nat) {l : Stand}
    (hl : l.scans = true) (hqueued : l = .queued → sid ∈ sids) :
    (reconcileSessions sids cleanedCount).Follows (StandMove sid) (Drawn sid)
      (fun _ l => l = .settled ∨ l = .seen) l := by
  induction sids generalizing cleanedCount l with
  | nil =>
      cases l with
      | queued => exact absurd (hqueued rfl) List.not_mem_nil
      | settled => exact Or.inl rfl
      | seen => exact Or.inr rfl
      | _ => cases hl
  | cons sid' rest ih =>
      apply Program.follows_bind.mpr
      by_cases hself : sid' = sid
      · subst hself
        apply Program.follows_mono (follows_reconcileSession_self hl)
        rintro cleaned l (rfl | rfl)
        · exact ih _ rfl nofun
        · exact ih _ rfl nofun
      · obtain ⟨htakes, hleaves⟩ := Stand.not_takes_of_scans hl
        apply Program.follows_mono (follows_reconcileSession_other hself htakes hleaves)
        rintro cleaned _ rfl
        apply ih _ hl
        intro hl'
        rcases List.mem_cons.mp (hqueued hl') with heq | hmem
        · exact absurd heq.symm hself
        · exact hmem

theorem follows_code_stand (c : Call) :
    c.code.Follows (StandMove sid) (Drawn sid) (standEnd sid c) .idle := by
  cases c with
  | acquire request =>
      apply Program.follows_bind.mpr
      intro s _
      refine ⟨_, .elsewhere _ s _ (by simp [Command.session?]) rfl rfl, ?_⟩
      exact Program.follows_mono (follows_acquireAvailable_other request _) fun _ _ h => h
  | release sid' =>
      apply Program.follows_bind.mpr
      by_cases hself : sid' = sid
      · subst hself
        apply Program.follows_mono follows_releaseWorker_self
        intro state l hend
        simpa [standEnd] using hend
      · apply Program.follows_mono (follows_releaseWorker_other hself)
        intro state l hend
        simpa [standEnd, hself] using hend
  | reconcile =>
      apply Program.follows_bind.mpr
      apply Program.follows_perform_bind.mpr
      intro s _
      by_cases hmem : sid ∈ s.active
      · refine ⟨_, .listed s, ?_⟩
        apply Program.follows_mono (follows_reconcileSessions s.active 0 rfl fun _ => hmem)
        exact fun _ _ h => h
      · refine ⟨_, .unlisted s hmem, ?_⟩
        apply Program.follows_mono (follows_reconcileSessions (l := .settled) s.active 0 rfl nofun)
        exact fun _ _ h => h

end Protocol

abbrev Stander := Local Call SessionStore Stand

/-- The number of calls that are about to give the slot back. -/
def taking (gs : Multiset Stander) : Nat := gs.countP fun g => g.state.takes

/-- The number of calls that have given the slot back and leave the set next. -/
def leaving (gs : Multiset Stander) : Nat := gs.countP fun g => g.state.leaves

/-- The record exists and names no instance. -/
def Unnamed (s : SessionStore) (sid : SessionId) : Prop :=
  (s.session sid).isSome ∧ namedBy s sid = none

/-- What a call knows holds of the store. -/
def Stand.Sound (i : String) (sid : SessionId) (s : SessionShared) (born : SessionStore) :
    Stand → Prop
  | .idle | .skipped | .queued => True
  | .orphaned => namedBy s.store sid = none
  | .searching rest => namedBy s.store sid = none ∧ (i ∈ rest ∨ 0 < decrements s i sid)
  | .taking j => j = i
  | .leaving j => j = i ∧ 0 < decrements s i sid
  | .settled => 0 < decrements s i sid
  | .seen => born.session sid = none → 0 < decrements s i sid

/-- The session against the calls that know of it. -/
structure Kept (i : String) (sid : SessionId) (s : SessionShared) (gs : Multiset Stander) :
    Prop where
  drawn : Drawn sid s.store
  instances : i ∈ s.store.instances
  only : ∀ j, j ≠ i → sid ∉ s.store.instanceSessions j
  named : ∀ j, namedBy s.store sid = some j → j = i
  once : decrements s i sid + taking gs ≤ 1
  others : ∀ j, j ≠ i → decrements s j sid = 0
  unread : namedBy s.store sid = some i → Unread s sid →
    decrements s i sid = 0 ∧ taking gs = 0
  member : sid ∈ s.store.instanceSessions i → decrements s i sid ≤ leaving gs
  gone : sid ∉ s.store.instanceSessions i ∨ sid ∉ s.store.active ∨ Unnamed s.store sid →
    0 < decrements s i sid
  sound : ∀ g ∈ gs, g.state.Sound i sid s g.born
  born : ∀ g ∈ gs, g.born.session sid = none → namedBy s.store sid = none
  returned : Released s sid ∨ Reconciled s sid → 0 < decrements s i sid

/-- The session's record and its places in the sets only disappear. -/
structure Fades (sid : SessionId) (s s' : SessionStore) : Prop where
  drawn : s.nextId ≤ s'.nextId
  instances : ∀ i ∈ s.instances, i ∈ s'.instances
  named : namedBy s' sid = namedBy s sid ∨ namedBy s' sid = none
  sessions : ∀ j, sid ∈ s'.instanceSessions j → sid ∈ s.instanceSessions j

/-- The session's record and its places in the sets stay. -/
structure Stays (sid : SessionId) (s s' : SessionStore) : Prop where
  drawn : s.nextId ≤ s'.nextId
  instances : ∀ i ∈ s.instances, i ∈ s'.instances
  session : s'.session sid = s.session sid
  sessions : ∀ j, sid ∈ s'.instanceSessions j ↔ sid ∈ s.instanceSessions j
  active : sid ∈ s'.active ↔ sid ∈ s.active

section Kept

variable {i : String} {sid : SessionId} {s s' : SessionShared} {c : Command} {l : Stand}
  {g : Stander} {gs : Multiset Stander} {store store' : SessionStore}

theorem Stays.namedBy (h : Stays sid store store') : namedBy store' sid = namedBy store sid := by
  rw [Sessions.namedBy, h.session, Sessions.namedBy]

theorem Stays.fades (h : Stays sid store store') : Fades sid store store' where
  drawn := h.drawn
  instances := h.instances
  named := Or.inl h.namedBy
  sessions j := (h.sessions j).mp

/-- A command that names another session lets this one stay. -/
theorem stays_of_other (hc : c.session? ≠ some sid) : Stays sid store (c.apply store) := by
  constructor
  case drawn => cases c <;> simp [Command.apply]
  case instances =>
    intro i hi
    cases c <;> simp [Command.apply, hi]
  case session =>
    cases c <;> simp_all [Command.apply, Command.session?, Function.update_of_ne, eq_comm]
  case sessions =>
    intro j
    cases c with
    | saddSessions k sid' | sremSessions k sid' =>
        have hne : sid ≠ sid' := by simpa [Command.session?, eq_comm] using hc
        by_cases hj : j = k
        · subst hj
          simp [Command.apply, hne]
        · simp [Command.apply, hj]
    | _ => exact Iff.rfl
  case active =>
    cases c <;> simp_all [Command.apply, Command.session?, eq_comm]

theorem decrements_perform :
    decrements (s.perform c) i sid = decrements s i sid + (c.decrements i sid).toNat := by
  cases h : c.decrements i sid <;> simp [decrements, Shared.perform, h]

theorem unread_perform :
    Unread (s.perform c) sid ↔ c.readsRecord sid = false ∧ Unread s sid := by
  simp [Unread, Shared.perform]

/-- What a call knows stays true when the record fades and the slot is given back. -/
theorem Stand.Sound.mono {born : SessionStore} (h : l.Sound i sid s born)
    (hnamed : namedBy s.store sid = none → namedBy s'.store sid = none)
    (hcount : decrements s i sid ≤ decrements s' i sid) : l.Sound i sid s' born := by
  cases l with
  | idle | skipped | queued => trivial
  | orphaned => exact hnamed h
  | searching rest =>
      constructor
      · exact hnamed h.1
      · exact h.2.imp_right fun hpos => hpos.trans_le hcount
  | taking j => exact h
  | leaving j => exact ⟨h.1, h.2.trans_le hcount⟩
  | settled => exact Nat.lt_of_lt_of_le h hcount
  | seen => exact fun hborn => (h hborn).trans_le hcount

theorem Fades.unnamed (h : Fades sid store store') (hnone : namedBy store sid = none) :
    namedBy store' sid = none := by
  rcases h.named with heq | hnone'
  · exact heq.trans hnone
  · exact hnone'

theorem taking_cons : taking (g ::ₘ gs) = g.state.takes.toNat + taking gs := by
  cases h : g.state.takes <;> simp [taking, h, add_comm]

theorem leaving_cons : leaving (g ::ₘ gs) = g.state.leaves.toNat + leaving gs := by
  cases h : g.state.leaves <;> simp [leaving, h, add_comm]

/-- A call moves on: its own part is all there is to check. -/
theorem Kept.moved (h : Kept i sid s (g ::ₘ gs)) (hfades : Fades sid s.store (s.perform c).store)
    (hothers : ∀ j, j ≠ i → c.decrements j sid = false)
    (honce : decrements (s.perform c) i sid + l.takes.toNat + taking gs ≤ 1)
    (hunread : namedBy (s.perform c).store sid = some i → Unread (s.perform c) sid →
      decrements (s.perform c) i sid = 0 ∧ l.takes = false ∧ taking gs = 0)
    (hmember : sid ∈ (s.perform c).store.instanceSessions i →
      decrements (s.perform c) i sid ≤ l.leaves.toNat + leaving gs)
    (hgone : sid ∉ (s.perform c).store.instanceSessions i ∨ sid ∉ (s.perform c).store.active ∨
      Unnamed (s.perform c).store sid → 0 < decrements (s.perform c) i sid)
    (hsound : l.Sound i sid (s.perform c) g.born) :
    Kept i sid (s.perform c) ({ g with state := l } ::ₘ gs) := by
  have hcount : decrements s i sid ≤ decrements (s.perform c) i sid := by
    rw [decrements_perform]
    exact Nat.le_add_right _ _
  constructor
  case drawn => exact Nat.lt_of_lt_of_le h.drawn hfades.drawn
  case instances => exact hfades.instances i h.instances
  case only => exact fun j hj hmem => h.only j hj (hfades.sessions j hmem)
  case named =>
    intro j hj
    rcases hfades.named with heq | hnone
    · exact h.named j (heq.symm.trans hj)
    · rw [hnone] at hj
      cases hj
  case once =>
    have hcons : taking ({ g with state := l } ::ₘ gs) = l.takes.toNat + taking gs := taking_cons
    omega
  case others =>
    intro j hj
    rw [decrements_perform, h.others j hj, hothers j hj]
    rfl
  case unread =>
    intro hnamed hread
    obtain ⟨hzero, htakes, htaking⟩ := hunread hnamed hread
    rw [taking_cons, htakes, htaking]
    exact ⟨hzero, rfl⟩
  case member =>
    intro hmem
    rw [leaving_cons]
    exact hmember hmem
  case gone => exact hgone
  case sound =>
    intro g' hg'
    rcases Multiset.mem_cons.mp hg' with rfl | hg'
    · exact hsound
    · exact (h.sound g' (Multiset.mem_cons_of_mem hg')).mono hfades.unnamed hcount
  case born =>
    intro g' hg' hborn
    apply hfades.unnamed
    rcases Multiset.mem_cons.mp hg' with rfl | hg'
    · exact h.born g (Multiset.mem_cons_self g gs) hborn
    · exact h.born g' (Multiset.mem_cons_of_mem hg') hborn
  case returned => exact fun hreturned => (h.returned hreturned).trans_le hcount

/-- The commands that look at the session, or write its counter or its time to live. -/
def Command.looks (sid : SessionId) (c : Command) : Bool :=
  match c with
  | .hgetallSession _ | .existsSession _ | .sismemberSessions _ _ | .hsetCounter _ _ _
  | .expireSession _ | .smembersInstances | .smembersActive => true
  | c => c.session? ≠ some sid

theorem stays_of_looks (hc : c.looks sid = true) : Stays sid store (c.apply store) := by
  cases c with
  | hgetallSession _ | existsSession _ | sismemberSessions _ _ | hsetCounter _ _ _
  | expireSession _ | smembersInstances | smembersActive =>
      exact ⟨le_rfl, fun _ h => h, rfl, fun _ => Iff.rfl, Iff.rfl⟩
  | _ => exact stays_of_other (by simpa [Command.looks] using hc)

theorem not_decrements_of_looks (hc : c.looks sid = true) (j : String) :
    c.decrements j sid = false := by
  cases c <;> simp_all [Command.looks, Command.decrements, Command.session?]

theorem Stand.Sound.perform {born : SessionStore} (h : l.Sound i sid s born)
    (hc : c.looks sid = true) : l.Sound i sid (s.perform c) born := by
  apply h.mono
  · exact fun hnone => (stays_of_looks hc).namedBy.trans hnone
  · rw [decrements_perform]
    exact Nat.le_add_right _ _

/-- A call looks at the session, or at something else, and changes nothing of it. -/
theorem Kept.looked (h : Kept i sid s (g ::ₘ gs)) (hc : c.looks sid = true)
    (honce : decrements s i sid + l.takes.toNat + taking gs ≤ 1)
    (hunread : namedBy s.store sid = some i → Unread (s.perform c) sid → l.takes = false)
    (hleaves : l.leaves = g.state.leaves) (hsound : l.Sound i sid s g.born) :
    Kept i sid (s.perform c) ({ g with state := l } ::ₘ gs) := by
  have hstays : Stays sid s.store (s.perform c).store := stays_of_looks hc
  have hcount := not_decrements_of_looks hc
  have hsame : decrements (s.perform c) i sid = decrements s i sid := by
    rw [decrements_perform, hcount]
    rfl
  refine h.moved hstays.fades (fun j _ => hcount j) (hsame ▸ honce) ?_ ?_ ?_ (hsound.perform hc)
  · intro hnamed hread
    have hnamed' := hstays.namedBy ▸ hnamed
    obtain ⟨hzero, htaking⟩ := h.unread hnamed' (unread_perform.mp hread).2
    rw [taking_cons] at htaking
    exact ⟨hsame.trans hzero, hunread hnamed' hread, by omega⟩
  · intro hmem
    have hle := h.member ((hstays.sessions i).mp hmem)
    rw [leaving_cons] at hle
    rw [hsame, hleaves]
    exact hle
  · intro hgone
    rw [hsame]
    apply h.gone
    rwa [Unnamed, hstays.namedBy, hstays.session, hstays.sessions, hstays.active] at hgone

/-- A call moves on without finding the slot to give back. -/
theorem Kept.passed (h : Kept i sid s (g ::ₘ gs)) (hc : c.looks sid = true)
    (htakes : l.takes = false) (hleaves : l.leaves = g.state.leaves)
    (hsound : l.Sound i sid s g.born) :
    Kept i sid (s.perform c) ({ g with state := l } ::ₘ gs) := by
  refine h.looked hc ?_ (fun _ _ => htakes) hleaves hsound
  have honce := h.once
  rw [taking_cons] at honce
  rw [htakes, Bool.toNat_false]
  omega

/-- The slot of the session is given back. -/
theorem Kept.gaveBack (h : Kept i sid s (g ::ₘ gs)) {j : String} (hg : g.state = .taking j) :
    Kept i sid (s.perform (.hincrby j (-1) sid)) ({ g with state := .leaving j } ::ₘ gs) := by
  obtain rfl : j = i := by
    have hsound := h.sound g (Multiset.mem_cons_self g gs)
    rwa [hg] at hsound
  have honce := h.once
  rw [taking_cons, hg] at honce
  simp only [Stand.takes, Bool.toNat_true] at honce
  have hcount : decrements (s.perform (.hincrby j (-1) sid)) j sid = decrements s j sid + 1 := by
    simp [decrements_perform, Command.decrements]
  have hstays : Stays sid s.store (s.perform (.hincrby j (-1) sid)).store :=
    ⟨le_rfl, fun _ h => h, rfl, fun _ => Iff.rfl, Iff.rfl⟩
  refine h.moved hstays.fades ?_ ?_ ?_ ?_ ?_ ⟨rfl, ?_⟩
  · intro k hk
    simp [Command.decrements, Ne.symm hk]
  · simp only [hcount, Stand.takes, Bool.toNat_false]
    omega
  · intro hnamed hread
    have hnone := (h.unread hnamed (unread_perform.mp hread).2).2
    rw [taking_cons, hg] at hnone
    simp [Stand.takes] at hnone
  · intro _
    simp only [hcount, Stand.leaves, Bool.toNat_true]
    omega
  · omega
  · omega

/-- The session leaves a place, or its record is marked, after its slot was given back. -/
theorem Kept.settled (h : Kept i sid s (g ::ₘ gs)) (hfades : Fades sid s.store (s.perform c).store)
    (hcount : ∀ j, c.decrements j sid = false) (hpos : 0 < decrements s i sid)
    (htakes : g.state.takes = false)
    (hmember : sid ∈ (s.perform c).store.instanceSessions i → g.state.leaves = false) :
    Kept i sid (s.perform c) ({ g with state := .settled } ::ₘ gs) := by
  have hsame : decrements (s.perform c) i sid = decrements s i sid := by
    rw [decrements_perform, hcount]
    rfl
  refine h.moved hfades (fun j _ => hcount j) ?_ ?_ ?_ ?_ (Nat.lt_of_lt_of_eq hpos hsame.symm)
  · have honce := h.once
    rw [taking_cons, htakes] at honce
    rw [hsame]
    simpa [Stand.takes] using honce
  · intro hnamed hread
    have hnamed' : namedBy s.store sid = some i := by
      rcases hfades.named with heq | hnone
      · exact heq.symm.trans hnamed
      · rw [hnone] at hnamed
        cases hnamed
    have hzero := (h.unread hnamed' (unread_perform.mp hread).2).1
    omega
  · intro hmem
    have hle := h.member (hfades.sessions i hmem)
    rw [leaving_cons, hmember hmem] at hle
    rw [hsame]
    exact hle
  · intro _
    omega

theorem Kept.removed (h : Kept i sid s (g ::ₘ gs)) {j : String} (hg : g.state = .leaving j) :
    Kept i sid (s.perform (.sremSessions j sid)) ({ g with state := .settled } ::ₘ gs) := by
  have hsound := h.sound g (Multiset.mem_cons_self g gs)
  rw [hg] at hsound
  obtain ⟨rfl, hpos⟩ := hsound
  have hset (k : String) (hmem : sid ∈ (s.perform (.sremSessions j sid)).store.instanceSessions k) :
      k ≠ j ∧ sid ∈ s.store.instanceSessions k := by
    by_cases hk : k = j
    · subst hk
      simp [Shared.perform, apply, Command.apply] at hmem
    · refine ⟨hk, ?_⟩
      simpa [Shared.perform, apply, Command.apply, hk] using hmem
  refine h.settled ⟨le_rfl, fun _ hi => hi, Or.inl rfl, fun k hk => (hset k hk).2⟩ ?_ hpos ?_ ?_
  · simp [Command.decrements]
  · rw [hg]
    rfl
  · exact fun hmem => absurd rfl (hset j hmem).1

/-- A call whose part is settled removes the session from the index, or marks its record. -/
theorem Kept.finished (h : Kept i sid s (g ::ₘ gs)) (hpos : 0 < decrements s i sid)
    (htakes : g.state.takes = false) (hleaves : g.state.leaves = false)
    (hc : c = .sremActive sid ∨ c = .hsetSession sid [("status", .text "ended")]) :
    Kept i sid (s.perform c) ({ g with state := .settled } ::ₘ gs) := by
  refine h.settled ?_ ?_ hpos htakes fun _ => hleaves
  · rcases hc with rfl | rfl
    · exact ⟨le_rfl, fun _ hi => hi, Or.inl rfl, fun _ hk => hk⟩
    · refine ⟨le_rfl, fun _ hi => hi, ?_, fun _ hk => hk⟩
      rcases hdata : s.store.session sid with _ | data
      · right
        simp [namedBy, Shared.perform, apply, Command.apply, hdata, instanceOf, Dict.set,
          EngineRecord.field, EngineRecord.nonempty, Dict.get?_cons]
      · left
        simp [namedBy, Shared.perform, apply, Command.apply, hdata, instanceOf,
          EngineRecord.field, Dict.get?_set]
  · rcases hc with rfl | rfl <;> simp [Command.decrements]

/-- Nobody else is about to give the slot back, or to leave the instance's set. -/
def Alone (gs : Multiset Stander) : Prop := taking gs = 0 ∧ leaving gs = 0

theorem Kept.move (h : Kept i sid s (g ::ₘ gs)) (hmove : StandMove sid g.state s.store c l)
    (hread : c = .hgetallSession sid → (namedBy s.store sid).isSome → Unread s sid)
    (halone : ∀ j, c = .sismemberSessions j sid → sid ∈ s.store.instanceSessions j → Alone gs) :
    Kept i sid (s.perform c) ({ g with state := l } ::ₘ gs) := by
  have hsound := h.sound g (Multiset.mem_cons_self g gs)
  generalize hstate : g.state = state at hmove hsound
  generalize hstore : s.store = store at hmove
  cases hmove with
  | elsewhere _ _ _ hc htakes hleaves =>
      have hlooks : c.looks sid = true := by
        cases c <;> simp_all [Command.looks]
      exact h.passed hlooks htakes
        (by rw [hstate]) hsound
  | found _ j hnamed =>
      subst hstore
      obtain rfl := h.named j hnamed
      obtain ⟨hzero, hnone⟩ := h.unread hnamed (hread rfl (by simp [hnamed]))
      rw [taking_cons] at hnone
      refine h.looked rfl ?_ ?_
        (by rw [hstate]; rfl) rfl
      · simp only [Stand.takes, Bool.toNat_true]
        omega
      · intro _ hunread
        exact absurd (unread_perform.mp hunread).1 (by simp [Command.readsRecord])
  | notFound =>
      exact h.passed rfl rfl
        (by rw [hstate]; rfl) trivial
  | listed =>
      exact h.passed rfl rfl
        (by rw [hstate]; rfl) trivial
  | unlisted _ hactive =>
      subst hstore
      have hpos := h.gone (Or.inr (Or.inl hactive))
      have hsettled : Stand.settled.Sound i sid s g.born := hpos
      exact h.passed rfl rfl
        (by rw [hstate]; rfl) hsettled
  | present _ _ hscans hsome =>
      subst hstore
      have hseen : Stand.seen.Sound i sid s g.born := by
        intro hborn
        exact h.gone (Or.inr (Or.inr ⟨hsome, h.born g (Multiset.mem_cons_self g gs) hborn⟩))
      have hleaves := (Stand.not_takes_of_scans hscans).2
      exact h.passed rfl rfl
        (by rw [hstate, hleaves]; rfl) hseen
  | absent _ _ hscans hnone =>
      subst hstore
      have horphaned : Stand.orphaned.Sound i sid s g.born := by
        simp [Stand.Sound, namedBy, hnone]
      have hleaves := (Stand.not_takes_of_scans hscans).2
      exact h.passed rfl rfl
        (by rw [hstate, hleaves]; rfl) horphaned
  | search =>
      subst hstore
      have hsearching : (Stand.searching s.store.instances).Sound i sid s g.born :=
        ⟨hsound, Or.inl h.instances⟩
      exact h.passed rfl rfl
        (by rw [hstate]; rfl) hsearching
  | hit _ j rest hmem =>
      subst hstore
      obtain rfl : j = i := by
        by_contra hne
        exact h.only j hne hmem
      obtain ⟨htaking, hleaving⟩ := halone j rfl hmem
      have hle := h.member hmem
      rw [leaving_cons, hstate, hleaving] at hle
      refine h.looked rfl ?_ ?_
        (by rw [hstate]; rfl) rfl
      · simp only [Stand.takes, Stand.leaves, Bool.toNat_true, Bool.toNat_false] at hle ⊢
        omega
      · intro hnamed
        rw [hsound.1] at hnamed
        cases hnamed
  | miss _ j rest hmem =>
      subst hstore
      have hrest : (Stand.searching rest).Sound i sid s g.born := by
        refine ⟨hsound.1, ?_⟩
        rcases hsound.2 with hin | hpos
        · rcases List.mem_cons.mp hin with rfl | hin
          · exact Or.inr (h.gone (Or.inl hmem))
          · exact Or.inl hin
        · exact Or.inr hpos
      exact h.passed rfl rfl
        (by rw [hstate]; rfl) hrest
  | decrement _ j => exact h.gaveBack hstate
  | clamp _ j =>
      exact h.passed rfl rfl
        (by rw [hstate]) hsound
  | leave _ j => exact h.removed hstate
  | unlist _ _ hl =>
      rcases hl with rfl | rfl
      · have hpos : 0 < decrements s i sid := hsound.2.resolve_left List.not_mem_nil
        exact h.finished hpos (by rw [hstate]; rfl) (by rw [hstate]; rfl) (Or.inl rfl)
      · exact h.finished hsound (by rw [hstate]; rfl) (by rw [hstate]; rfl) (Or.inl rfl)
  | mark => exact h.finished hsound (by rw [hstate]; rfl) (by rw [hstate]; rfl) (Or.inr rfl)
  | expire =>
      exact h.passed rfl rfl
        (by rw [hstate]) hsound

/-- A call that has just begun knows nothing of the session. -/
theorem Kept.begun (h : Kept i sid s gs) (call : Call) :
    Kept i sid s (⟨call, s.store, .idle⟩ ::ₘ gs) where
  drawn := h.drawn
  instances := h.instances
  only := h.only
  named := h.named
  once := by simpa [taking_cons, Stand.takes] using h.once
  others := h.others
  unread := by simpa [taking_cons, Stand.takes] using h.unread
  member := by simpa [leaving_cons, Stand.leaves] using h.member
  gone := h.gone
  sound := by
    intro g hg
    rcases Multiset.mem_cons.mp hg with rfl | hg
    · trivial
    · exact h.sound g hg
  born := by
    intro g hg hborn
    rcases Multiset.mem_cons.mp hg with rfl | hg
    · have hgone : s.store.session sid = none := hborn
      simp [namedBy, hgone]
    · exact h.born g hg hborn
  returned := h.returned

/-- What a call knows does not depend on what was returned. -/
theorem Stand.Sound.congr {born : SessionStore} (h : l.Sound i sid s born)
    (hnamed : namedBy s.store sid = none → namedBy s'.store sid = none)
    (hhistory : s'.history = s.history) : l.Sound i sid s' born := by
  apply h.mono hnamed
  simp [decrements, hhistory]

/-- A call that returns has handled the session or has nothing to do with it. -/
theorem Kept.ended (h : Kept i sid s (g ::ₘ gs)) {a : Reply} (hend : standEnd sid g.call a g.state) :
    Kept i sid { s with returned := ⟨g.call, g.born, a⟩ :: s.returned } gs := by
  have hsound := h.sound g (Multiset.mem_cons_self g gs)
  have hidle : g.state.takes = false ∧ g.state.leaves = false := by
    rcases hcall : g.call with request | sid' | _ <;> rw [hcall] at hend <;>
      rcases a with _ | _ | _ <;> simp only [standEnd] at hend
    · simp [hend, Stand.takes, Stand.leaves]
    · split at hend
      · rcases hend.2 with hl | hl <;> simp [hl, Stand.takes, Stand.leaves]
      · simp [hend, Stand.takes, Stand.leaves]
    · rcases hend with hl | hl <;> simp [hl, Stand.takes, Stand.leaves]
  have htaking : taking (g ::ₘ gs) = taking gs := by
    rw [taking_cons, hidle.1]
    exact zero_add _
  have hleaving : leaving (g ::ₘ gs) = leaving gs := by
    rw [leaving_cons, hidle.2]
    exact zero_add _
  constructor
  case drawn => exact h.drawn
  case instances => exact h.instances
  case only => exact h.only
  case named => exact h.named
  case once => exact htaking ▸ h.once
  case others => exact h.others
  case unread => exact htaking ▸ h.unread
  case member => exact hleaving ▸ h.member
  case gone => exact h.gone
  case sound => exact fun g' hg' => (h.sound g' (Multiset.mem_cons_of_mem hg')).congr id rfl
  case born => exact fun g' hg' => h.born g' (Multiset.mem_cons_of_mem hg')
  case returned =>
    have hold (x : Return Call SessionStore Reply) (hx : x ∈ s.returned)
        (hdone : x.call = .release sid ∧ (∃ state, x.result = .released (some state)) ∨
          x.call = .reconcile ∧ x.born.session sid = none) : 0 < decrements s i sid := by
      apply h.returned
      rcases hdone with hrelease | hreconcile
      · exact Or.inl ⟨x, hx, hrelease⟩
      · exact Or.inr ⟨x, hx, hreconcile⟩
    rintro (⟨x, hx, hcall, state, hstate⟩ | ⟨x, hx, hcall, hborn⟩)
    · rcases List.mem_cons.mp hx with rfl | hx
      · simp only at hcall hstate
        rw [hcall, hstate] at hend
        simp only [standEnd, if_true] at hend
        rw [hend.1 rfl] at hsound
        exact hsound
      · exact hold x hx (Or.inl ⟨hcall, state, hstate⟩)
    · rcases List.mem_cons.mp hx with rfl | hx
      · simp only at hcall hborn
        rw [hcall] at hend
        rcases a with _ | _ | _ <;> simp only [standEnd] at hend
        rcases hend with hl | hl <;> rw [hl] at hsound
        · exact hsound
        · exact hsound hborn
      · exact hold x hx (Or.inr ⟨hcall, hborn⟩)

/-- The record of a session expires. -/
theorem Kept.expired (h : Kept i sid s gs) (sid' : SessionId) :
    Kept i sid { s with store := apply (Command.sessionExpires sid') s.store } gs := by
  have hnamed : namedBy (apply (Command.sessionExpires sid') s.store) sid = namedBy s.store sid ∨
      (apply (Command.sessionExpires sid') s.store).session sid = none := by
    by_cases hself : sid' = sid
    · right
      simp [apply, Command.apply, hself]
    · left
      simp [namedBy, apply, Command.apply, Ne.symm hself]
  have hnone (hnone : namedBy s.store sid = none) :
      namedBy (apply (Command.sessionExpires sid') s.store) sid = none := by
    rcases hnamed with heq | hgone
    · exact heq.trans hnone
    · simp [namedBy, hgone]
  have hsome {j : String}
      (hsome : namedBy (apply (Command.sessionExpires sid') s.store) sid = some j) :
      namedBy s.store sid = some j := by
    rcases hnamed with heq | hgone
    · exact heq.symm.trans hsome
    · simp [namedBy, hgone] at hsome
  constructor
  case drawn => exact h.drawn
  case instances => exact h.instances
  case only => exact h.only
  case named => exact fun j hj => h.named j (hsome hj)
  case once => exact h.once
  case others => exact h.others
  case unread => exact fun hi => h.unread (hsome hi)
  case member => exact h.member
  case gone =>
    rintro (hset | hactive | ⟨hdata, hunnamed⟩)
    · exact h.gone (Or.inl hset)
    · exact h.gone (Or.inr (Or.inl hactive))
    · by_cases hself : sid' = sid
      · simp [apply, Command.apply, hself] at hdata
      · have hsession : (apply (Command.sessionExpires sid') s.store).session sid =
            s.store.session sid := by
          simp [apply, Command.apply, Ne.symm hself]
        rw [hsession] at hdata
        rw [namedBy, hsession] at hunnamed
        exact h.gone (Or.inr (Or.inr ⟨hdata, hunnamed⟩))
  case sound => exact fun g hg => (h.sound g hg).congr hnone rfl
  case born => exact fun g hg hborn => hnone (h.born g hg hborn)
  case returned => exact h.returned

theorem Kept.registryChanged (h : Kept i sid s gs) (records : List EngineRecord) :
    Kept i sid { s with store := apply (Command.registryChanges records) s.store } gs where
  drawn := h.drawn
  instances := h.instances
  only := h.only
  named := h.named
  once := h.once
  others := h.others
  unread := h.unread
  member := h.member
  gone := h.gone
  sound g hg := (h.sound g hg).congr id rfl
  born := h.born
  returned := h.returned

/-- A call that handles the slot can be seen to do so. -/
theorem handles_of_matches {t : SessionThread} (ht : t.Matches (fun _ => StandMove sid) (Drawn sid) (standEnd sid) g)
    (hs : Drawn sid store) (hg : g.state.takes = true ∨ g.state.leaves = true) :
    handles sid t = true := by
  obtain ⟨_, _, hfollows⟩ := ht
  cases hnext : t.rest.next? with
  | none =>
      obtain ⟨a, hend⟩ := Program.follows_end hfollows hnext
      exfalso
      rcases hcall : g.call with request | sid' | _ <;> rw [hcall] at hend <;>
        rcases a with _ | _ | _ <;> simp only [standEnd] at hend
      · simp [hend, Stand.takes, Stand.leaves] at hg
      · split at hend
        · rcases hend.2 with hl | hl <;> simp [hl, Stand.takes, Stand.leaves] at hg
        · simp [hend, Stand.takes, Stand.leaves] at hg
      · rcases hend with hl | hl <;> simp [hl, Stand.takes, Stand.leaves] at hg
  | some c =>
      obtain ⟨l, hmove⟩ := Program.follows_next hfollows hs hnext
      generalize g.state = state at hmove hg
      simp only [handles, hnext]
      cases hmove with
      | elsewhere _ _ _ _ htakes hleaves => simp [htakes, hleaves] at hg
      | present _ _ hscans | absent _ _ hscans =>
          simp [Stand.not_takes_of_scans hscans] at hg
      | unlist _ _ hl => rcases hl with rfl | rfl <;> simp [Stand.takes, Stand.leaves] at hg
      | decrement | clamp | leave => simp
      | _ => simp [Stand.takes, Stand.leaves] at hg

end Kept

section Runs

variable {i : String} {sid : SessionId}

/-- Every turn of a run in which the slot is found alone keeps what is known of it. -/
theorem kept_preserved : Preserved Call.code (fun _ => StandMove sid) (Drawn sid) (standEnd sid)
    (fun _ => .idle) (FoundAlone sid) (Kept i sid) := by
  constructor
  case code => exact fun _ c _ => follows_code_stand c
  case store => exact fun _ _ h => h.drawn
  case start => exact fun _ _ c _ h _ => h.begun c
  case move =>
    intro pool g gs n c l h hok hnext hrest hmove
    have hfound := hok c hnext
    apply h.move hmove
    · rintro rfl hsome
      exact hfound rfl hsome
    · rintro j rfl hmem
      have hnone (g' : Stander) (hg' : g' ∈ gs) :
          ¬ (g'.state.takes = true ∨ g'.state.leaves = true) := by
        intro hhandles
        obtain ⟨t, ht, hmatch⟩ := Multiset.exists_mem_of_rel_of_mem (Multiset.rel_flip.mpr hrest) hg'
        have hclear := hfound rfl hmem t ht
        rw [handles_of_matches hmatch h.drawn hhandles] at hclear
        cases hclear
      constructor
      · exact Multiset.countP_eq_zero.mpr fun g' hg' htakes => hnone g' hg' (Or.inl htakes)
      · exact Multiset.countP_eq_zero.mpr fun g' hg' hleaves => hnone g' hg' (Or.inr hleaves)
  case done => exact fun _ _ _ _ h hend => h.ended hend
  case fail => exact fun _ _ _ _ _ _ hok _ _ => hok.elim
  case outside =>
    intro pool gs c _ h hok
    cases c with
    | sessionExpires sid' => exact h.expired sid'
    | registryChanges records => exact h.registryChanged records
    | _ => cases hok

theorem kept_established {start : SessionStore} (h : Established start i sid) :
    Kept i sid (Pool.idle start : SessionPool).toShared 0 where
  drawn := h.drawn
  instances := h.instances
  only j hj hmem := hj ((h.sessions j).mp hmem)
  named j hj := Option.some.inj (hj.symm.trans h.record)
  once := by simp [taking, decrements, Pool.idle]
  others _ _ := rfl
  unread _ _ := ⟨rfl, rfl⟩
  member _ := Nat.zero_le _
  gone := by
    rintro (hset | hactive | ⟨_, hunnamed⟩)
    · exact absurd ((h.sessions i).mpr rfl) hset
    · exact absurd h.active hactive
    · have hrecord : namedBy start sid = some i := h.record
      rw [Pool.idle, hrecord] at hunnamed
      cases hunnamed
  sound _ hg := absurd hg (Multiset.notMem_zero _)
  born _ hg := absurd hg (Multiset.notMem_zero _)
  returned := by simp [Released, Reconciled, Pool.idle]

/-- In every run in which whoever finds the slot of a session to give back is the first
and the only one, the slot is given back at most once, to the session's own instance, and
it has been given back once the session was released or reconciled. -/
theorem decremented_once {start : SessionStore} (hstart : Established start i sid)
    {pool : SessionPool} (run : Pool.Run Call.code (FoundAlone sid) (Pool.idle start) pool) :
    decrements pool.toShared i sid ≤ 1 ∧
      (∀ j, j ≠ i → decrements pool.toShared j sid = 0) ∧
      (Released pool.toShared sid ∨ Reconciled pool.toShared sid →
        decrements pool.toShared i sid = 1) := by
  obtain ⟨gs, _, h⟩ := kept_preserved.run run ⟨0, Pool.matches_idle _, kept_established hstart⟩
  have honce := h.once
  refine ⟨by omega, h.others, ?_⟩
  intro hdone
  have hpos := h.returned hdone
  omega

end Runs

section Samples

/-- One session of one instance. -/
def sampleSession : SessionStore where
  registry := []
  nextId := 1
  activeSessions _ := 1
  session _ := some [("instance", .text "whisper-rt-1"), ("status", .text "active")]
  instanceSessions i := if i = "whisper-rt-1" then [0] else []
  instances := ["whisper-rt-1"]
  active := [0]

theorem sampleSession_established : Established sampleSession "whisper-rt-1" 0 where
  drawn := by decide
  record := by decide
  sessions j := by simp [sampleSession]
  instances := by decide
  active := by decide

/-- A pass begins while the session is released, and another one when its record is gone. -/
def releasedThenReconciled : List (Turn Call Command) :=
  List.flatten [
    [.start (.release 0), .move 0, .move 0, .start .reconcile, .move 1],
    List.replicate 5 (.move 0),
    [.outside (.sessionExpires 0), .start .reconcile], List.replicate 9 (.move 0)]

/-- The session is released, and then it is released again. -/
def releasedTwice : List (Turn Call Command) :=
  List.flatten [
    [.start (.release 0)], List.replicate 7 (.move 0),
    [.start (.release 0)], List.replicate 7 (.move 0)]

end Samples

theorem decremented_once_sample :
    let pool := (Pool.idle sampleSession).turns Call.code releasedThenReconciled
    decrements pool.toShared "whisper-rt-1" 0 ≤ 1 ∧
      (∀ j, j ≠ "whisper-rt-1" → decrements pool.toShared j 0 = 0) ∧
      (Released pool.toShared 0 ∨ Reconciled pool.toShared 0 →
        decrements pool.toShared "whisper-rt-1" 0 = 1) := by
  have hallowed :
      Pool.Allowed Call.code (FoundAlone 0) (Pool.idle sampleSession) releasedThenReconciled := by
    decide +kernel
  exact decremented_once sampleSession_established (Pool.run_of_allowed hallowed)

/-- A second release gives the slot back a second time. -/
theorem decremented_twice :
    ¬ ∀ (start : SessionStore) (i : String) (sid : SessionId), Established start i sid →
      ∀ pool : SessionPool, Pool.Run Call.code AnyCalls (Pool.idle start) pool →
        decrements pool.toShared i sid ≤ 1 ∧
          (∀ j, j ≠ i → decrements pool.toShared j sid = 0) ∧
          (Released pool.toShared sid ∨ Reconciled pool.toShared sid →
            decrements pool.toShared i sid = 1) := by
  intro hclaim
  have hallowed : Pool.Allowed Call.code AnyCalls (Pool.idle sampleSession) releasedTwice := by
    decide +kernel
  have honce := (hclaim _ _ _ sampleSession_established _ (Pool.run_of_allowed hallowed)).1
  revert honce
  decide +kernel

end Dalston.Sessions
