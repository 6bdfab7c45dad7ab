import Dalston.Events.Books

/-!
# Delivery of durable events

Every message of the stream waits to be read, is pending, or is finished: its
handler has succeeded or its copy was added to the dead-letter stream. This holds
for any outcomes and any crashes, as long as no append trims a message that is
not finished yet. A failure that cannot be retried is followed by the copy, and a
message is dispatched no more often than the setting allows between two starts.
-/

namespace Dalston.Events

open Foundation Model

/-- The consumer is about to read new events. -/
def Reads (pool : EventPool) : Prop :=
  ∃ t ∈ pool.threads, ∃ n, t.rest.next? = some (.xreadgroup n)

/-- What the delivery of events promises. -/
structure DeliveryLaw (settings : EventSettings) (pool : EventPool) : Prop where
  acknowledged : ∀ id, id < pool.store.delivered →
    (∃ p ∈ pool.store.pending, p.id = id) ∨ Finished pool.store id
  kept : ∀ id, id < pool.store.nextId →
    (∃ m ∈ pool.store.stream, m.id = id) ∨
      (∃ n outcome, Record.dispatched id n outcome ∈ pool.store.log) ∨ DeadLettered pool.store id
  buried : pool.store.log.IsChain Buries
  retried : Reads pool → ∀ p ∈ pool.store.pending, p.id ∈ pool.store.recent →
    Retried settings pool.store p.id p.deliveries
  limited : ∀ id, dispatches pool.store id ≤ settings.eventsMaxDeliveries

namespace EventEffect

/-- The effects that do not come from the consumer. -/
def outside : EventEffect → Bool
  | xadd _ _ | answers _ | timePasses _ => true
  | _ => false

/-- The entries an append removes. -/
def removes (s : EventStore) : EventEffect → List StreamEntry
  | xadd fields trimmed => List.take (s.trims trimmed) (s.stream ++ [⟨s.nextId, fields⟩])
  | _ => []

end EventEffect

/-- One consumer runs at a time and may crash anywhere. -/
def OneConsumer (pool : EventPool) : Turn Orchestrator EventEffect → Prop
  | .start _ => pool.threads.isEmpty = true
  | .move _ | .fail _ => True
  | .outside e => e.outside = true

/-- Appends remove only messages that were delivered and acknowledged. -/
def TrimsFinished (pool : EventPool) (turn : Turn Orchestrator EventEffect) : Prop :=
  OneConsumer pool turn ∧
    ∀ e, turn = .outside e → ∀ m ∈ e.removes pool.store,
      m.id < pool.store.delivered ∧ ∀ p ∈ pool.store.pending, p.id ≠ m.id

section Runs

variable {settings : EventSettings}

/-- The invariant of the pool: at most one consumer runs. -/
def Kept (settings : EventSettings) (s : EventShared)
    (gs : Multiset (Local Orchestrator EventStore Duty)) : Prop :=
  Books settings s.store ∧ gs.card ≤ 1 ∧
    ∀ g ∈ gs, g.state = .off ∨ Working settings s.store g.state

theorem books_empty (settings : EventSettings) : Books settings .empty := by
  constructor
  case ordered => exact List.Pairwise.nil
  case queue => exact List.Pairwise.nil
  case buried => exact List.IsChain.nil
  case offered => exact le_rfl
  case limited => exact fun id => Nat.zero_le _
  all_goals simp [EventStore.empty, EventStore.counts, EventStore.Present]

theorem Kept.drop {s s' : EventShared} {g : Local Orchestrator EventStore Duty}
    {gs : Multiset (Local Orchestrator EventStore Duty)} (h : Kept settings s (g ::ₘ gs))
    (hstore : s'.store = s.store) : Kept settings s' gs := by
  obtain ⟨hb, hcard, hl⟩ := h
  rw [Multiset.card_cons] at hcard
  rw [Kept, hstore]
  exact ⟨hb, by omega, fun g' hg => hl g' (Multiset.mem_cons_of_mem hg)⟩

theorem Kept.outside {s : EventShared} {gs : Multiset (Local Orchestrator EventStore Duty)}
    (h : Kept settings s gs) {e : EventEffect} (he : e.outside = true)
    (hremoved : ∀ m ∈ e.removes s.store,
      m.id < s.store.delivered ∧ ∀ p ∈ s.store.pending, p.id ≠ m.id) :
    Kept settings { s with store := e.apply s.store } gs := by
  obtain ⟨hb, hcard, hl⟩ := h
  -- what the consumer holds is not touched from outside
  have hkeep (hcounts : (e.apply s.store).counts = s.store.counts)
      (hlog : (e.apply s.store).log = s.store.log) (hdlq : (e.apply s.store).dlq = s.store.dlq)
      (hrecent : (e.apply s.store).recent = s.store.recent) :
      ∀ g ∈ gs, g.state = .off ∨ Working settings (e.apply s.store) g.state :=
    fun g hg => (hl g hg).imp_right fun h => h.congr hcounts hlog hdlq hrecent
  cases e with
  | xadd fields trimmed =>
      exact ⟨hb.appended fields trimmed hremoved, hcard, hkeep rfl rfl rfl rfl⟩
  | answers outcome => exact ⟨hb.answered outcome, hcard, hkeep rfl rfl rfl rfl⟩
  | timePasses idleMs =>
      exact ⟨hb.timePassed idleMs, hcard,
        hkeep (EventStore.counts_timePasses idleMs) rfl rfl rfl⟩
  | _ => cases he

theorem kept_preserved :
    Preserved (Orchestrator.code settings) (fun _ => DutyMove settings) (fun _ => True)
      (fun _ _ _ => True) (fun _ => Duty.off) TrimsFinished (Kept settings) := by
  constructor
  case code => exact fun _ o _ => keeps_code o
  case store => exact fun _ _ _ => trivial
  case start =>
    intro pool gs o hm h hok
    have hnone : pool.threads = [] := List.isEmpty_iff.mp hok.1
    have hgs : gs = 0 := by
      rw [Pool.Matches, hnone] at hm
      exact Multiset.rel_zero_left.mp hm
    subst hgs
    refine ⟨h.1, le_rfl, ?_⟩
    intro g hg
    rw [Multiset.mem_singleton.mp hg]
    exact Or.inl rfl
  case move =>
    intro pool g gs i e l h _ _ _ hmove
    obtain ⟨hb, hcard, hl⟩ := h
    rw [Multiset.card_cons] at hcard
    have hgs : gs = 0 := Multiset.card_eq_zero.mp (by omega)
    subst hgs
    obtain ⟨hb', hw'⟩ := hb.moved (hl g (Multiset.mem_cons_self g 0)) hmove
    refine ⟨hb', le_rfl, ?_⟩
    intro g' hg'
    rw [Multiset.mem_singleton.mp hg']
    exact Or.inr hw'
  case done => exact fun pool g gs a h _ => h.drop rfl
  case fail => exact fun pool t g gs i h _ _ _ => h.drop rfl
  case outside =>
    intro pool gs e _ h hok
    exact h.outside hok.1 (hok.2 e rfl)

theorem Books.accountedFor {s : EventStore} {id : MessageId} (hb : Books settings s)
    (hid : id < s.delivered) : (∃ p ∈ s.pending, p.id = id) ∨ Finished s id := by
  rcases hb.accounted id (Nat.lt_of_lt_of_le hid hb.offered) with ⟨hnew, _⟩ | ⟨n, hmem⟩ | hfinished
  · exact absurd hid (not_lt.mpr hnew)
  · obtain ⟨p, hp, hpid, _⟩ := EventStore.mem_counts.mp hmem
    exact Or.inl ⟨p, hp, hpid⟩
  · exact Or.inr hfinished

theorem Books.kept {s : EventStore} {id : MessageId} (hb : Books settings s)
    (hid : id < s.nextId) : (∃ m ∈ s.stream, m.id = id) ∨
      (∃ n outcome, Record.dispatched id n outcome ∈ s.log) ∨ DeadLettered s id := by
  rcases hb.accounted id hid with ⟨_, hstream⟩ | ⟨n, hmem⟩ | ⟨n, outcome, hmem, _⟩ | hdead
  · exact Or.inl hstream
  · obtain ⟨m, hm, hmid⟩ := hb.present _ hmem
    exact Or.inl ⟨m, hm, hmid⟩
  · exact Or.inr (Or.inl ⟨n, outcome, hmem⟩)
  · exact Or.inr (Or.inr hdead)

/-- A consumer that is about to read holds nothing. -/
theorem ready_of_reads {l : Duty} {n : Nat} {p : EventOp Unit} {s : EventStore}
    (h : p.Follows (DutyMove settings) (fun _ => True) (fun _ _ => True) l)
    (hnext : p.next? = some (.xreadgroup n)) : l.ready = some [] := by
  obtain ⟨l', hmove⟩ := Program.follows_next h (s := s) trivial hnext
  cases hmove with
  | read _ _ _ hready => exact hready

end Runs

section Decide

variable {pool : EventPool}

theorem trimsFinished_outside {e : EventEffect} : TrimsFinished pool (.outside e) ↔
    e.outside = true ∧ ∀ m ∈ e.removes pool.store,
      m.id < pool.store.delivered ∧ ∀ p ∈ pool.store.pending, p.id ≠ m.id := by
  constructor
  · intro h
    exact ⟨h.1, h.2 e rfl⟩
  · rintro ⟨hone, hremoved⟩
    refine ⟨hone, ?_⟩
    intro e' he
    cases he
    exact hremoved

theorem trimsFinished_start {o : Orchestrator} :
    TrimsFinished pool (.start o) ↔ pool.threads.isEmpty = true := by
  constructor
  · exact fun h => h.1
  · intro hone
    refine ⟨hone, ?_⟩
    intro e he
    cases he

instance : ∀ turn, Decidable (TrimsFinished pool turn)
  | .start _ => decidable_of_iff (pool.threads.isEmpty = true) trimsFinished_start.symm
  | .move _ => isTrue ⟨trivial, by simp⟩
  | .fail _ => isTrue ⟨trivial, by simp⟩
  | .outside e => decidable_of_iff (e.outside = true ∧ ∀ m ∈ e.removes pool.store,
        m.id < pool.store.delivered ∧ ∀ p ∈ pool.store.pending, p.id ≠ m.id)
      trimsFinished_outside.symm

end Decide

/-- An event with an empty payload. -/
def sampleEvent (eventType : String) : Dict EventText :=
  [("type", ⟨eventType, .invalid "Expecting value"⟩), ("payload", ⟨"\x7b\x7d", .object []⟩)]

/-- One event is handled; the type of the next one is not known. -/
def sampleEvents : List (Turn Orchestrator EventEffect) := List.flatten [
  [.outside (.xadd (sampleEvent "job.created") 0), .outside (.xadd (sampleEvent "job.unknown") 0),
    .start ⟨"orchestrator", [false]⟩],
  List.replicate 5 (.move 0),
  [.outside (.answers (.unknownEventType "job.unknown"))],
  List.replicate 3 (.move 0)]

/-- So many events were appended and none was read. -/
def unread (n : Nat) : EventStore :=
  { EventStore.empty with
    stream := (List.range n).map (⟨·, sampleEvent "job.created"⟩)
    nextId := n }

theorem unread_succ (n : Nat) :
    (EventEffect.xadd (sampleEvent "job.created") 0).apply (unread n) = unread (n + 1) := by
  simp [EventEffect.apply, EventStore.trims, unread, List.range_succ]

/-- An append is allowed at any time. -/
theorem step_append (settings : EventSettings) (s : EventStore) (fields : Dict EventText)
    (trimmed : Nat) :
    Pool.Step (Orchestrator.code settings) OneConsumer (Pool.idle s)
      (Pool.idle ((EventEffect.xadd fields trimmed).apply s)) :=
  .turn (.outside (EventEffect.xadd fields trimmed)) rfl

theorem run_unread (settings : EventSettings) (n : Nat) :
    Pool.Run (Orchestrator.code settings) OneConsumer (Pool.idle .empty) (Pool.idle (unread n)) := by
  induction n with
  | zero => exact Relation.ReflTransGen.refl
  | succ n ih =>
      rw [← unread_succ]
      exact ih.tail (step_append settings _ _ 0)

/-- An append may drop as many of the oldest events as exceed the maximal length. -/
theorem unread_trimmed {n trimmed : Nat} (h : maxStreamLength + trimmed ≤ n + 1) :
    ((EventEffect.xadd (sampleEvent "job.created") trimmed).apply (unread n)).stream =
      (List.range (n + 1 - trimmed)).map fun i => ⟨trimmed + i, sampleEvent "job.created"⟩ := by
  have htrims : (unread n).trims trimmed = trimmed := by
    simp only [EventStore.trims, unread, List.length_map, List.length_range]
    omega
  have hall : (unread n).stream ++ [⟨(unread n).nextId, sampleEvent "job.created"⟩] =
      (List.range (n + 1)).map (⟨·, sampleEvent "job.created"⟩) := by
    simp [unread, List.range_succ]
  simp only [EventEffect.apply, htrims, hall]
  refine List.ext_getElem (by simp) fun i _ _ => ?_
  simp

end Dalston.Events
