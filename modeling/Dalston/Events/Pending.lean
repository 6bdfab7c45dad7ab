import Dalston.Events.Consumer

/-!
# The pending list

What the commands of a consumer group do to the pending list, seen as the ids of
the pending messages with their delivery counts. A claim takes messages from the
cursor on, and goes on behind the last one it has taken; a read takes the oldest
messages that the group was not offered yet.
-/

namespace Dalston.Events

open Foundation

section Scan

variable {exist : MessageId → Bool} {minIdleMs attempts count : Nat} {ps : List Pending}

/-- A scan deletes only messages that are gone. -/
theorem scanPending_deleted :
    ∀ id ∈ (scanPending exist minIdleMs attempts count ps).deleted, exist id = false := by
  fun_induction scanPending exist minIdleMs attempts count ps with
  | case1 => simp
  | case2 => simp
  | case3 => simp
  | case4 attempts count p rest hgone claim ih =>
      intro id hid
      rcases List.mem_cons.mp hid with rfl | hid
      · exact hgone
      · exact ih id hid
  | case5 attempts count p rest _ _ ih => exact ih
  | case6 attempts count p rest _ _ claim ih => exact ih

theorem scanPending_claimed :
    (scanPending exist minIdleMs attempts count ps).claimed.Sublist (ps.map (·.id)) := by
  fun_induction scanPending exist minIdleMs attempts count ps with
  | case1 => simp
  | case2 => simp
  | case3 => simp
  | case4 attempts count p rest _ claim ih => exact ih.cons _
  | case5 attempts count p rest _ _ ih => exact ih.cons _
  | case6 attempts count p rest _ _ claim ih => exact ih.cons_cons _

theorem scanPending_cursor_mem {next : MessageId}
    (h : (scanPending exist minIdleMs attempts count ps).cursor = some next) :
    ∃ p ∈ ps, p.id = next := by
  fun_induction scanPending exist minIdleMs attempts count ps with
  | case1 => cases h
  | case2 => exact ⟨_, List.mem_cons_self, Option.some.inj h⟩
  | case3 => exact ⟨_, List.mem_cons_self, Option.some.inj h⟩
  | case4 attempts count p rest _ claim ih =>
      obtain ⟨q, hq, hid⟩ := ih h
      exact ⟨q, List.mem_cons_of_mem _ hq, hid⟩
  | case5 attempts count p rest _ _ ih =>
      obtain ⟨q, hq, hid⟩ := ih h
      exact ⟨q, List.mem_cons_of_mem _ hq, hid⟩
  | case6 attempts count p rest _ _ claim ih =>
      obtain ⟨q, hq, hid⟩ := ih h
      exact ⟨q, List.mem_cons_of_mem _ hq, hid⟩

/-- The next page begins behind the messages of this one. -/
theorem scanPending_cursor (hsorted : (ps.map (·.id)).Pairwise (· < ·)) {next : MessageId}
    (h : (scanPending exist minIdleMs attempts count ps).cursor = some next) :
    ∀ id ∈ (scanPending exist minIdleMs attempts count ps).claimed, id < next := by
  fun_induction scanPending exist minIdleMs attempts count ps with
  | case1 => simp
  | case2 => simp
  | case3 => simp
  | case4 attempts count p rest _ claim ih => exact ih (List.pairwise_cons.mp hsorted).2 h
  | case5 attempts count p rest _ _ ih => exact ih (List.pairwise_cons.mp hsorted).2 h
  | case6 attempts count p rest _ _ claim ih =>
      obtain ⟨hfirst, hrest⟩ := List.pairwise_cons.mp hsorted
      intro id hid
      rcases List.mem_cons.mp hid with rfl | hid
      · obtain ⟨q, hq, rfl⟩ := scanPending_cursor_mem h
        exact hfirst _ (List.mem_map_of_mem hq)
      · exact ih hrest h id hid

end Scan

namespace EventStore

/-- The pending messages with their delivery counts. -/
def counts (s : EventStore) : List (MessageId × Nat) := s.pending.map fun p => (p.id, p.deliveries)

/-- Every pending message is still in the stream. -/
def Present (s : EventStore) : Prop := ∀ x ∈ s.counts, ∃ m ∈ s.stream, m.id = x.1

variable {s : EventStore} {minIdleMs count : Nat} {cursor id : MessageId} {n : Nat}

theorem mem_counts : (id, n) ∈ s.counts ↔ ∃ p ∈ s.pending, p.id = id ∧ p.deliveries = n := by
  simp [counts]

theorem find?_pending {ps : List Pending} (h : (ps.map (·.id)).Nodup) {p : Pending} (hp : p ∈ ps) :
    ps.find? (·.id = p.id) = some p := by
  induction ps with
  | nil => cases hp
  | cons q rest ih =>
      obtain ⟨hfirst, hrest⟩ := List.nodup_cons.mp h
      rcases List.mem_cons.mp hp with rfl | hp
      · simp
      · have hne : q.id ≠ p.id := fun heq => hfirst (List.mem_map.mpr ⟨p, hp, heq.symm⟩)
        rw [List.find?_cons_of_neg (by simpa using hne)]
        exact ih hrest hp

theorem deliveryCount_of_mem (h : (s.counts.map (·.1)).Nodup) (hmem : (id, n) ∈ s.counts) :
    s.deliveryCount id = n := by
  obtain ⟨p, hp, rfl, rfl⟩ := mem_counts.mp hmem
  have hnodup : (s.pending.map (·.id)).Nodup := by simpa [counts, Function.comp_def] using h
  simp [deliveryCount, find?_pending hnodup hp]

theorem message?_of_mem {m : StreamEntry} (h : m ∈ s.stream) : (s.message? m.id).isSome := by
  rw [message?, List.find?_isSome]
  exact ⟨m, h, by simp⟩

theorem id_of_message? {m : StreamEntry} (h : s.message? id = some m) : m.id = id := by
  simpa using List.find?_some h

/-- The pending messages in the range of a claim. -/
theorem mem_claimed (h : id ∈ (s.autoclaim minIdleMs count cursor).claimed) :
    cursor ≤ id ∧ ∃ n, (id, n) ∈ s.counts := by
  have hmem := (scanPending_claimed.subset h)
  obtain ⟨p, hp, rfl⟩ := List.mem_map.mp hmem
  obtain ⟨hpending, hcursor⟩ := List.mem_filter.mp hp
  exact ⟨by simpa using hcursor, p.deliveries, mem_counts.mpr ⟨p, hpending, rfl, rfl⟩⟩

theorem isSome_of_claimed (hpresent : s.Present) (h : ∃ n, (id, n) ∈ s.counts) :
    (s.message? id).isSome := by
  obtain ⟨n, hmem⟩ := h
  obtain ⟨m, hm, hid⟩ := hpresent _ hmem
  subst hid
  exact message?_of_mem hm

theorem deleted_eq_nil (hpresent : s.Present) :
    (s.autoclaim minIdleMs count cursor).deleted = [] := by
  have hnone : ∀ id ∈ (s.autoclaim minIdleMs count cursor).deleted, (s.message? id).isSome = false :=
    scanPending_deleted
  -- a deleted message would be one of the scanned ones, which are all present
  have hscanned : ∀ ps : List Pending, (∀ p ∈ ps, (s.message? p.id).isSome = true) →
      ∀ attempts count, (scanPending (fun id => (s.message? id).isSome) minIdleMs attempts count
        ps).deleted = [] := by
    intro ps hps attempts count
    fun_induction scanPending (fun id => (s.message? id).isSome) minIdleMs attempts count ps with
    | case1 => rfl
    | case2 => rfl
    | case3 => rfl
    | case4 attempts count p rest hgone claim ih =>
        rw [hps p List.mem_cons_self] at hgone
        cases hgone
    | case5 attempts count p rest _ _ ih => exact ih fun q hq => hps q (List.mem_cons_of_mem _ hq)
    | case6 attempts count p rest _ _ claim ih =>
        exact ih fun q hq => hps q (List.mem_cons_of_mem _ hq)
  apply hscanned
  intro p hp
  exact isSome_of_claimed hpresent ⟨_, mem_counts.mpr ⟨p, (List.mem_filter.mp hp).1, rfl, rfl⟩⟩

/-- A claim returns the messages it has taken. -/
theorem ids_claimedEntries (hpresent : s.Present) :
    (s.claimedEntries minIdleMs count cursor).map (·.id) =
      (s.autoclaim minIdleMs count cursor).claimed := by
  have hall : ∀ id ∈ (s.autoclaim minIdleMs count cursor).claimed, (s.message? id).isSome :=
    fun id hid => isSome_of_claimed hpresent (mem_claimed hid).2
  rw [claimedEntries]
  generalize (s.autoclaim minIdleMs count cursor).claimed = ids at hall
  induction ids with
  | nil => rfl
  | cons id rest ih =>
      obtain ⟨m, hm⟩ := Option.isSome_iff_exists.mp (hall id List.mem_cons_self)
      rw [List.filterMap_cons_some hm, List.map_cons, id_of_message? hm,
        ih fun id hid => hall id (List.mem_cons_of_mem _ hid)]

theorem counts_xautoclaim (hpresent : s.Present) :
    ((EventEffect.xautoclaim minIdleMs count cursor).apply s).counts =
      s.counts.map fun x =>
        if x.1 ∈ (s.autoclaim minIdleMs count cursor).claimed then (x.1, x.2 + 1) else x := by
  simp only [counts, EventEffect.apply, deleted_eq_nil hpresent, List.not_mem_nil,
    not_false_eq_true, decide_true, List.filter_true, List.map_map]
  apply List.map_congr_left
  intro p _
  simp only [Function.comp_apply]
  split <;> rfl

theorem counts_xreadgroup :
    ((EventEffect.xreadgroup count).apply s).counts =
      s.counts ++ (s.newEntries count).map fun m => (m.id, 1) := by
  simp [counts, EventEffect.apply]

theorem counts_xack :
    ((EventEffect.xack id).apply s).counts = s.counts.filter fun x => x.1 ≠ id := by
  simp [counts, EventEffect.apply, List.filter_map, Function.comp_def]

theorem counts_timePasses (idleMs : MessageId → Nat) :
    ((EventEffect.timePasses idleMs).apply s).counts = s.counts := by
  simp [counts, EventEffect.apply]

theorem mem_newEntries {m : StreamEntry} (h : m ∈ s.newEntries count) :
    m ∈ s.stream ∧ s.delivered ≤ m.id := by
  simpa using List.mem_of_mem_take h

/-- The id behind the messages that are read next. -/
def readUpTo (s : EventStore) (count : Nat) : MessageId :=
  ((s.newEntries count).getLast?.map fun m => m.id + 1).getD s.delivered

theorem sorted_newEntries (h : (s.stream.map (·.id)).Pairwise (· < ·)) :
    ((s.newEntries count).map (·.id)).Pairwise (· < ·) :=
  h.sublist (((List.take_sublist _ _).trans List.filter_sublist).map _)

theorem lt_readUpTo (h : (s.stream.map (·.id)).Pairwise (· < ·)) {m : StreamEntry}
    (hm : m ∈ s.newEntries count) : m.id < s.readUpTo count := by
  obtain ⟨init, last, hlist⟩ := List.eq_nil_or_concat' (s.newEntries count) |>.resolve_left
    (List.ne_nil_of_mem hm)
  have hsorted : ((s.newEntries count).map (·.id)).Pairwise (· < ·) := sorted_newEntries h
  have hlast : s.readUpTo count = last.id + 1 := by simp [readUpTo, hlist]
  rw [hlast]
  rw [hlist] at hm hsorted
  rcases List.mem_append.mp hm with hinit | hmem
  · rw [List.map_append, List.pairwise_append] at hsorted
    exact Nat.lt_succ_of_lt (hsorted.2.2 _ (List.mem_map_of_mem hinit) last.id (by simp))
  · rw [List.mem_singleton.mp hmem]
    exact Nat.lt_succ_self _

/-- Everything that is skipped by the group's position was read. -/
theorem mem_newEntries_of_lt (h : (s.stream.map (·.id)).Pairwise (· < ·)) {m : StreamEntry}
    (hm : m ∈ s.stream) (hnew : s.delivered ≤ m.id) (hlt : m.id < s.readUpTo count) :
    m ∈ s.newEntries count := by
  have hfilter : m ∈ s.stream.filter (s.delivered ≤ ·.id) := by simp [hm, hnew]
  have hsorted : ((s.stream.filter (s.delivered ≤ ·.id)).map (·.id)).Pairwise (· < ·) :=
    h.sublist (List.filter_sublist.map _)
  rw [← List.take_append_drop count (s.stream.filter (s.delivered ≤ ·.id))] at hfilter hsorted
  rcases List.mem_append.mp hfilter with htake | hdrop
  · exact htake
  · -- a message behind the read ones is behind the new position
    exfalso
    rw [List.map_append, List.pairwise_append] at hsorted
    rcases List.eq_nil_or_concat' (s.newEntries count) with hnil | ⟨init, last, hlist⟩
    · rw [readUpTo, hnil] at hlt
      exact absurd hlt (not_lt.mpr hnew)
    · have hlast : last ∈ s.newEntries count := by simp [hlist]
      have hbelow : last.id < m.id :=
        hsorted.2.2 _ (List.mem_map_of_mem hlast) m.id (List.mem_map_of_mem hdrop)
      have hread : s.readUpTo count = last.id + 1 := by simp [readUpTo, hlist]
      rw [hread] at hlt
      exact absurd hlt (not_lt.mpr hbelow)

theorem delivered_le_readUpTo : s.delivered ≤ s.readUpTo count := by
  rcases List.eq_nil_or_concat' (s.newEntries count) with hnil | ⟨init, last, hlist⟩
  · simp [readUpTo, hnil]
  · have hlast : last ∈ s.newEntries count := by simp [hlist]
    have hread : s.readUpTo count = last.id + 1 := by simp [readUpTo, hlist]
    rw [hread]
    exact Nat.le_succ_of_le (mem_newEntries hlast).2

theorem readUpTo_le (hbelow : ∀ m ∈ s.stream, m.id < s.nextId) (h : s.delivered ≤ s.nextId) :
    s.readUpTo count ≤ s.nextId := by
  rcases List.eq_nil_or_concat' (s.newEntries count) with hnil | ⟨init, last, hlist⟩
  · simpa [readUpTo, hnil] using h
  · have hlast : last ∈ s.newEntries count := by simp [hlist]
    have hread : s.readUpTo count = last.id + 1 := by simp [readUpTo, hlist]
    rw [hread]
    exact hbelow last (mem_newEntries hlast).1

end EventStore

end Dalston.Events
