import Dalston.Reconciler.Repairs

/-!
# Tasks that a pass adds to the streams again

A task is added again when a dead engine holds an entry of it, and when the message
its metadata names was consumed. The first of these steps acknowledges the entry and
leaves the metadata alone, so that the second one may take the entry for a consumed
message and add the task once more.
-/

namespace Dalston.Reconciler

open Foundation Model

variable {env : Env} {s : Store} {t : TaskRow} {τ : Uuid}

/-- A dead engine holds a stale entry of the task, which has not started. -/
def Stale (env : Env) (s : Store) (t : TaskRow) : Prop :=
  ∃ x ∈ pelEntriesByStage (snapshot s.streams), isStale env s x.2 = true ∧ x.2.taskId = some t.id

/-- The message is the entry of an ended task, or a stale one. -/
def Acknowledges (env : Env) (s : Store) (queue : String) (id : MessageId) : Prop :=
  (queue, id) ∈ endedEntries s ∨
    ∃ x ∈ pelEntriesByStage (snapshot s.streams), isStale env s x.2 = true ∧
      queue = x.1 ∧ id = x.2.messageId

/-- The task is ready, and the message its metadata names was delivered and is pending no
more, or will be acknowledged. -/
def Consumed (env : Env) (s : Store) (t : TaskRow) : Prop :=
  t.status = .ready ∧ ∃ queue id, namedMessage env s t = some (queue, id) ∧
    s.streams.isDelivered queue id = true ∧
      (s.streams.isPending queue id = false ∨ Acknowledges env s queue id)

section Settled

/-- The rows after the first step, which knows the pending tasks. -/
abbrev settledStore (env : Env) (s : Store) : Store :=
  reconcileOrphanedDbTasks env (pelTaskIds (snapshot s.streams)) s

theorem settleOrphan_eq {ids : List Uuid} (h : t.status ≠ .running ∨ t.id ∈ ids) :
    settleOrphan env ids t = t := by
  have hnot : ¬ orphaned env ids t = true := by
    simp only [orphaned, Bool.and_eq_true, decide_eq_true_eq]
    rintro ⟨⟨hrunning, _⟩, hunseen⟩
    rcases h with hother | hseen
    · exact hother hrunning
    · exact hunseen hseen
  rw [settleOrphan, if_neg hnot]

theorem status_settleOrphan (env : Env) (ids : List Uuid) (t : TaskRow) :
    (settleOrphan env ids t).status = t.status ∨
      t.status = .running ∧ (settleOrphan env ids t).status.terminal = true := by
  by_cases hrunning : t.status = .running
  · rw [settleOrphan]
    split
    · split
      · exact Or.inl rfl
      · exact Or.inr ⟨hrunning, rfl⟩
      · exact Or.inr ⟨hrunning, rfl⟩
    · exact Or.inl rfl
  · rw [settleOrphan_eq (Or.inl hrunning)]
    exact Or.inl rfl

theorem row?_settledStore (id : Uuid) : (settledStore env s).row? id =
    (s.row? id).map (settleOrphan env (pelTaskIds (snapshot s.streams))) := by
  simp only [Store.row?, reconcileOrphanedDbTasks, List.find?_map, Function.comp_def,
    settleOrphan_id]

theorem waits_settleOrphan {ids : List Uuid} :
    (settleOrphan env ids t).waits = t.waits := by
  rcases status_settleOrphan env ids t with hsame | ⟨hrunning, hend⟩
  · rw [TaskRow.waits, hsame, TaskRow.waits]
  · rw [TaskRow.waits, TaskRow.waits, hrunning]
    cases h : (settleOrphan env ids t).status <;> simp [h, TaskStatus.terminal] at hend ⊢

theorem isStale_settledStore (e : PendingTask) :
    isStale env (settledStore env s) e = isStale env s e := by
  have hrow : ((e.taskId.bind (settledStore env s).row?).any (·.waits)) =
      (e.taskId.bind s.row?).any (·.waits) := by
    rcases e.taskId with _ | id
    · rfl
    · simp only [Option.bind_some, row?_settledStore, Option.any_map, waits_settleOrphan]
  unfold isStale
  rw [hrow]

theorem endedEntries_settledStore : endedEntries (settledStore env s) = endedEntries s := by
  refine List.filterMap_congr fun x hx => ?_
  have hseen : x.2 ∈ pelTaskIds (snapshot s.streams) := by
    obtain ⟨e, he, htask⟩ := mem_pelByStage hx
    obtain ⟨_, ⟨m, hm, hqueue, _⟩, _⟩ := Streams.holds_of_getPending he
    refine List.mem_flatMap.mpr ⟨(x.1, s.streams.getPending x.1), ?_, ?_⟩
    · exact List.mem_map.mpr ⟨x.1, hqueue ▸ s.streams.listed m hm, rfl⟩
    · exact List.mem_filterMap.mpr ⟨e, he, htask⟩
  have hrow : (settledStore env s).row? x.2 = s.row? x.2 := by
    rw [row?_settledStore]
    rcases hfind : s.row? x.2 with _ | t
    · rfl
    · have hid : t.id = x.2 := by simpa using List.find?_some hfind
      rw [Option.map_some, settleOrphan_eq (Or.inr (hid ▸ hseen))]
  rw [endedEntry, hrow, endedEntry]
  rfl

theorem ready_settledStore :
    (settledStore env s).tasks.filter (·.status = .ready) = s.tasks.filter (·.status = .ready) := by
  change (s.tasks.map (settleOrphan env (pelTaskIds (snapshot s.streams)))).filter _ = _
  generalize pelTaskIds (snapshot s.streams) = ids
  induction s.tasks with
  | nil => rfl
  | cons t rest ih =>
      by_cases hready : t.status = .ready
      · have hsame : settleOrphan env ids t = t := settleOrphan_eq (Or.inl (by simp [hready]))
        rw [List.map_cons, hsame, List.filter_cons_of_pos (by simpa using hready),
          List.filter_cons_of_pos (by simpa using hready), ih]
      · have hnot : (settleOrphan env ids t).status ≠ .ready := by
          rcases status_settleOrphan env ids t with hsame | ⟨_, hend⟩
          · rw [hsame]
            exact hready
          · intro h
            rw [h] at hend
            cases hend
        rw [List.map_cons, List.filter_cons_of_neg (by simpa using hnot),
          List.filter_cons_of_neg (by simpa using hready), ih]

end Settled

section Counts

/-- The store before the step for consumed messages. -/
def repeatedStore (env : Env) (s : Store) : Store :=
  reconcileStaleReadyTasks env (snapshot s.streams)
    (reconcileOrphanedPelEntries (snapshot s.streams) (settledStore env s))

/-- How many stale entries of the task are added again. -/
def staleCount (env : Env) (s : Store) (τ : Uuid) : Nat :=
  (pelEntriesByStage (snapshot s.streams)).countP fun x =>
    isStale env s x.2 && x.2.taskId = some τ

/-- How often the task is added for its consumed message. -/
def consumedCount (env : Env) (s : Store) (τ : Uuid) : Nat :=
  (s.tasks.filter (·.status = .ready)).countP fun t =>
    namesConsumed env (repeatedStore env s) t && t.id = τ

theorem row?_eq (ht : t ∈ s.tasks) : s.row? t.id = some t := by
  have hsome : (s.row? t.id).isSome = true := by
    rw [Store.row?, List.find?_isSome]
    exact ⟨t, ht, by simp⟩
  obtain ⟨u, hu⟩ := Option.isSome_iff_exists.mp hsome
  have huid : u.id = t.id := by simpa using List.find?_some hu
  rw [hu, List.inj_on_of_nodup_map s.uniqueId (List.mem_of_find?_eq_some hu) ht huid]

/-- A stale entry is pending, and the task it belongs to has not ended. -/
theorem holds_of_stale {x : String × PendingTask}
    (hx : x ∈ pelEntriesByStage (snapshot s.streams)) (hstale : isStale env s x.2 = true) :
    s.streams.Holds x.1 x.2.messageId x.2.taskId ∧ (x.1, x.2.messageId) ∉ endedEntries s := by
  obtain ⟨τ, htask⟩ := taskId_of_isStale hstale
  have hpending := mem_pelEntriesByStage hx
  obtain ⟨u, hheld, hsame⟩ := Streams.holds_of_getPending hpending
  obtain rfl := hsame τ htask
  refine ⟨htask ▸ hheld, ?_⟩
  intro hmem
  obtain ⟨τ', hentry⟩ := mem_endedEntries.mp hmem
  obtain ⟨hended, e, he, heq⟩ := endedEntry_eq_some.mp hentry
  have hentry := eq_of_messageId (List.mem_of_find?_eq_some he) hpending (Prod.ext_iff.mp heq).2
  have hτ' : x.2.taskId = some τ' := by
    rw [← hentry]
    simpa using List.find?_some he
  -- the row would both wait and have ended
  unfold isStale at hstale
  simp only [Bool.and_eq_true] at hstale
  have hwaits := hstale.2.1
  rw [hτ', Option.bind_some] at hwaits
  rcases hrow : s.row? τ' with _ | t
  · rw [hrow] at hwaits
    cases hwaits
  · simp only [hrow, Option.any_some] at hwaits hended
    cases hstatus : t.status <;>
      simp [TaskRow.waits, TaskRow.hasEnded, hstatus, TaskStatus.terminal] at hwaits hended

/-- The store before the step for stale entries. -/
def ackedStore (env : Env) (s : Store) : Store :=
  { settledStore env s with streams := s.streams.ackAll (endedEntries s) }

theorem isStale_before (e : PendingTask) : isStale env (ackedStore env s) e = isStale env s e :=
  (isStale_congr (s := settledStore env s) rfl e).trans (isStale_settledStore e)

/-- The first three steps, seen from the store before them. -/
theorem repeats_repeatedStore (env : Env) (s : Store) :
    Repeats env (ackedStore env s) (pelEntriesByStage (snapshot s.streams))
      (repeatedStore env s) := by
  have hack : reconcileOrphanedPelEntries (snapshot s.streams) (settledStore env s) =
      ackedStore env s := by
    have h := reconcileOrphanedPelEntries_eq (settledStore env s)
    rw [endedEntries_settledStore] at h
    exact h
  rw [repeatedStore, hack]
  refine repeats_foldl nodup_pelEntriesByStage ?_
  intro x hx hstale
  rw [isStale_before] at hstale
  exact Streams.holds_ackAll.mpr (holds_of_stale hx hstale)

theorem entries_repeatedStore (τ : Uuid) : (repeatedStore env s).streams.entries τ =
    s.streams.entries τ + staleCount env s τ := by
  have h := (repeats_repeatedStore env s).entries τ
  simp only [isStale_before] at h
  rw [h]
  exact congrArg (· + _) Streams.entries_ackAll

theorem liveEntries_repeatedStore (ht : t ∈ s.tasks) (h : t.hasEnded = false) :
    (repeatedStore env s).streams.liveEntries t.id = s.streams.liveEntries t.id := by
  have hrepeat := (repeats_repeatedStore env s).liveEntries t.id
  have hended : (s.row? t.id).any (·.hasEnded) = false := by
    rw [row?_eq ht]
    exact h
  exact hrepeat.trans (liveEntries_endedEntries hended)

/-- A message is pending before the last step when it was, and was not acknowledged. -/
theorem isPending_repeatedStore (env : Env) (s : Store) (queue : String) (id : MessageId) :
    (repeatedStore env s).streams.isPending queue id = true ↔
      s.streams.isPending queue id = true ∧ ¬ Acknowledges env s queue id := by
  have hacked (t : Option Uuid) : (ackedStore env s).streams.Holds queue id t ↔
      s.streams.Holds queue id t ∧ (queue, id) ∉ endedEntries s := Streams.holds_ackAll
  simp only [Streams.isPending_iff, (repeats_repeatedStore env s).holds, isStale_before,
    hacked, Acknowledges]
  push Not
  constructor
  · rintro ⟨t, ⟨hheld, hended⟩, hstale⟩
    exact ⟨⟨t, hheld⟩, hended, hstale⟩
  · rintro ⟨⟨t, hheld⟩, hended, hstale⟩
    exact ⟨t, ⟨hheld, hended⟩, hstale⟩

theorem namesConsumed_iff (hready : t.status = .ready) :
    namesConsumed env (repeatedStore env s) t = true ↔ Consumed env s t := by
  have hnamed : namedMessage env (repeatedStore env s) t = namedMessage env s t := by
    rw [namedMessage, (repeats_repeatedStore env s).metadata]
    rfl
  have hgroups : (repeatedStore env s).streams.groups = s.streams.groups :=
    (repeats_repeatedStore env s).groups.trans Streams.groups_ackAll
  have hdelivered (queue : String) (id : MessageId) :
      (repeatedStore env s).streams.isDelivered queue id = s.streams.isDelivered queue id := by
    rw [Streams.isDelivered, hgroups, Streams.isDelivered]
  have hpending (queue : String) (id : MessageId) :
      (repeatedStore env s).streams.isPending queue id = false ↔
        s.streams.isPending queue id = false ∨ Acknowledges env s queue id := by
    have h := isPending_repeatedStore env s queue id
    rw [← Bool.not_eq_true, ← Bool.not_eq_true, h, not_and_or, not_not]
  rw [namesConsumed, hnamed, Consumed]
  rcases namedMessage env s t with _ | ⟨queue, id⟩
  · simp
  · simp only [Option.any_some, isConsumed, Bool.and_eq_true, Bool.not_eq_true', hpending,
      hdelivered, hready, true_and, Option.some.injEq, Prod.mk.injEq]
    constructor
    · rintro ⟨hp, hd⟩
      exact ⟨queue, id, ⟨rfl, rfl⟩, hd, hp⟩
    · rintro ⟨_, _, ⟨rfl, rfl⟩, hd, hp⟩
      exact ⟨hp, hd⟩

theorem nodup_ready : ((s.tasks.filter (·.status = .ready)).map (·.id)).Nodup :=
  s.uniqueId.sublist (List.filter_sublist.map _)

/-- The step for consumed messages looks at the tasks that were ready before the pass. -/
theorem renames_reconcile (env : Env) (s : Store) :
    Renames env (repeatedStore env s) (s.tasks.filter (·.status = .ready))
      (reconcileConsumedMessages env (repeatedStore env s)) := by
  have htasks : (repeatedStore env s).tasks = (settledStore env s).tasks :=
    (repeats_repeatedStore env s).tasks
  rw [reconcileConsumedMessages, htasks, ready_settledStore]
  exact renames_foldl nodup_ready

/-- What the pass adds for a task. -/
theorem entries_reconcile (env : Env) (ht : t ∈ s.tasks) : (reconcile env s).streams.entries t.id =
    s.streams.entries t.id + staleCount env s t.id + consumedCount env s t.id := by
  have hrow : ∃ u ∈ (reconcileConsumedMessages env (repeatedStore env s)).tasks, u.id = t.id := by
    rw [tasks_reconcileConsumedMessages, (repeats_repeatedStore env s).tasks]
    exact ⟨_, List.mem_map_of_mem ht, settleOrphan_id⟩
  calc (reconcile env s).streams.entries t.id
      = (reconcileConsumedMessages env (repeatedStore env s)).streams.entries t.id :=
        (reconcileStuckJobs_old env hrow).1
    _ = (repeatedStore env s).streams.entries t.id + consumedCount env s t.id :=
        (renames_reconcile env s).entries t.id
    _ = _ := by rw [entries_repeatedStore]

theorem liveEntries_reconcile (env : Env) (ht : t ∈ s.tasks) (h : t.hasEnded = false) :
    (reconcile env s).streams.liveEntries t.id =
      s.streams.liveEntries t.id + consumedCount env s t.id := by
  have hrow : ∃ u ∈ (reconcileConsumedMessages env (repeatedStore env s)).tasks, u.id = t.id := by
    rw [tasks_reconcileConsumedMessages, (repeats_repeatedStore env s).tasks]
    exact ⟨_, List.mem_map_of_mem ht, settleOrphan_id⟩
  calc (reconcile env s).streams.liveEntries t.id
      = (reconcileConsumedMessages env (repeatedStore env s)).streams.liveEntries t.id :=
        (reconcileStuckJobs_old env hrow).2
    _ = (repeatedStore env s).streams.liveEntries t.id + consumedCount env s t.id :=
        (renames_reconcile env s).liveEntries t.id
    _ = _ := by rw [liveEntries_repeatedStore ht h]

/-- A stale entry belongs to a task that waits. -/
theorem row_of_stale {e : PendingTask} (hstale : isStale env s e = true)
    (htask : e.taskId = some τ) : ∃ t ∈ s.tasks, t.id = τ ∧ t.waits = true := by
  unfold isStale at hstale
  simp only [Bool.and_eq_true] at hstale
  have hwaits := hstale.2.1
  rw [htask, Option.bind_some] at hwaits
  rcases hrow : s.row? τ with _ | t
  · rw [hrow] at hwaits
    cases hwaits
  · rw [hrow, Option.any_some] at hwaits
    exact ⟨t, List.mem_of_find?_eq_some hrow, by simpa using List.find?_some hrow, hwaits⟩

theorem staleCount_pos : 0 < staleCount env s t.id ↔ Stale env s t := by
  simp [staleCount, List.countP_pos_iff, Stale]

/-- The stale entries of a task are live. -/
theorem staleCount_le (env : Env) (s : Store) (τ : Uuid) :
    staleCount env s τ ≤ s.streams.liveEntries τ := by
  have hnodup : (((pelEntriesByStage (snapshot s.streams)).filter fun x => isStale env s x.2).map
      fun x => (x.1, x.2.messageId)).Nodup :=
    nodup_pelEntriesByStage.sublist (List.filter_sublist.map _)
  have hcount := Streams.liveEntries_ackAll (s := s.streams) _ _ (fun x => x.2.taskId) τ
    hnodup (by
      intro x hx
      obtain ⟨hmem, hstale⟩ := List.mem_filter.mp hx
      exact (holds_of_stale hmem hstale).1)
  have hsame : staleCount env s τ =
      ((pelEntriesByStage (snapshot s.streams)).filter fun x => isStale env s x.2).countP
        fun x => x.2.taskId = some τ := by
    rw [staleCount, List.countP_filter]
    exact List.countP_congr fun x _ => by rw [Bool.and_comm]
  omega

theorem consumedCount_le (env : Env) (s : Store) (τ : Uuid) : consumedCount env s τ ≤ 1 := by
  have hid : (s.tasks.filter (·.status = .ready)).countP (·.id = τ) ≤ 1 := by
    have hcount := List.nodup_iff_count_le_one.mp (nodup_ready (s := s)) τ
    rw [List.count, List.countP_map] at hcount
    exact hcount
  exact (List.countP_mono_left fun t _ h => ((Bool.and_eq_true _ _).mp h).2).trans hid

theorem consumedCount_pos (ht : t ∈ s.tasks) :
    0 < consumedCount env s t.id ↔ Consumed env s t := by
  rw [consumedCount, List.countP_pos_iff]
  constructor
  · rintro ⟨u, hu, h⟩
    obtain ⟨hmem, hready⟩ := List.mem_filter.mp hu
    obtain ⟨hnamed, hid⟩ := (Bool.and_eq_true _ _).mp h
    obtain rfl := List.inj_on_of_nodup_map s.uniqueId hmem ht (by simpa using hid)
    exact (namesConsumed_iff (by simpa using hready)).mp hnamed
  · intro h
    refine ⟨t, List.mem_filter.mpr ⟨ht, by simpa using h.1⟩, ?_⟩
    simp [(namesConsumed_iff h.1).mpr h]

end Counts

/-- The pass adds at most one message for a task, and a task it adds again has one live
message afterwards. -/
def RequeuedOnce (env : Env) (s : Store) : Prop :=
  (∀ τ, (reconcile env s).streams.entries τ ≤ s.streams.entries τ + 1) ∧
    ∀ t ∈ s.tasks, s.streams.entries t.id < (reconcile env s).streams.entries t.id →
      (reconcile env s).streams.liveEntries t.id ≤ 1

theorem hasEnded_of_stale (ht : t ∈ s.tasks) (h : Stale env s t) : t.hasEnded = false := by
  obtain ⟨x, _, hstale, htask⟩ := h
  obtain ⟨u, hu, hid, hwaits⟩ := row_of_stale hstale htask
  obtain rfl := List.inj_on_of_nodup_map s.uniqueId hu ht hid
  cases hstatus : u.status <;>
    simp [TaskRow.waits, TaskRow.hasEnded, hstatus, TaskStatus.terminal] at hwaits ⊢

theorem hasEnded_of_consumed (h : Consumed env s t) : t.hasEnded = false := by
  rw [TaskRow.hasEnded, h.1]
  rfl

/-- A task without a row is not added again. -/
theorem entries_reconcile_le (env : Env) (s : Store) (hnone : ∀ t ∈ s.tasks, t.id ≠ τ) :
    (reconcile env s).streams.entries τ ≤ s.streams.entries τ + 1 := by
  have hstale : staleCount env s τ = 0 := by
    rw [staleCount, List.countP_eq_zero]
    intro x _ h
    obtain ⟨hstale, htask⟩ := (Bool.and_eq_true _ _).mp h
    obtain ⟨t, ht, hid, _⟩ := row_of_stale hstale (by simpa using htask)
    exact hnone t ht hid
  have hconsumed : consumedCount env s τ = 0 := by
    rw [consumedCount, List.countP_eq_zero]
    intro t ht h
    exact hnone t (List.mem_filter.mp ht).1 (by simpa using ((Bool.and_eq_true _ _).mp h).2)
  have hrenames := (renames_reconcile env s).entries τ
  rw [entries_repeatedStore, hstale] at hrenames
  have hsame : (reconcileConsumedMessages env (repeatedStore env s)).streams.entries τ =
      s.streams.entries τ := by
    rw [hrenames]
    exact congrArg (s.streams.entries τ + 0 + ·) hconsumed
  rw [← hsame]
  exact reconcileStuckJobs_new env _ τ

/-- A pass adds each task at most once exactly if the entry of a dead engine is the only live
one of its task, and a ready task whose message is consumed has none. -/
theorem requeuedOnce_iff (env : Env) (s : Store) : RequeuedOnce env s ↔
    ∀ t ∈ s.tasks, (Stale env s t → s.streams.liveEntries t.id = 1) ∧
      (Consumed env s t → s.streams.liveEntries t.id = 0) := by
  constructor
  · rintro ⟨_, hlive⟩ t ht
    have hentries := entries_reconcile env ht
    have hle := staleCount_le env s t.id
    constructor
    · intro hstale
      have hpos := staleCount_pos.mpr hstale
      have hafter := liveEntries_reconcile env ht (hasEnded_of_stale ht hstale)
      have hone := hlive t ht (by omega)
      omega
    · intro hconsumed
      have hpos := (consumedCount_pos ht).mpr hconsumed
      have hafter := liveEntries_reconcile env ht (hasEnded_of_consumed hconsumed)
      have hone := hlive t ht (by omega)
      omega
  · intro h
    have hcases (t : TaskRow) (ht : t ∈ s.tasks) :
        (reconcile env s).streams.entries t.id ≤ s.streams.entries t.id + 1 ∧
          (s.streams.entries t.id < (reconcile env s).streams.entries t.id →
            (reconcile env s).streams.liveEntries t.id ≤ 1) := by
      have hentries := entries_reconcile env ht
      have hle := staleCount_le env s t.id
      have hone := consumedCount_le env s t.id
      by_cases hstale : Stale env s t
      · -- the stale entry is live, so that the metadata names no consumed message
        have hlive := (h t ht).1 hstale
        have hafter := liveEntries_reconcile env ht (hasEnded_of_stale ht hstale)
        have hnot : ¬ Consumed env s t := fun hconsumed => by
          have hnone := (h t ht).2 hconsumed
          omega
        have hzero : consumedCount env s t.id = 0 :=
          Nat.eq_zero_of_not_pos (mt (consumedCount_pos ht).mp hnot)
        constructor
        · omega
        · omega
      · have hzero : staleCount env s t.id = 0 :=
          Nat.eq_zero_of_not_pos (mt staleCount_pos.mp hstale)
        by_cases hconsumed : Consumed env s t
        · have hnone := (h t ht).2 hconsumed
          have hafter := liveEntries_reconcile env ht (hasEnded_of_consumed hconsumed)
          constructor
          · omega
          · omega
        · have hzero' : consumedCount env s t.id = 0 :=
            Nat.eq_zero_of_not_pos (mt (consumedCount_pos ht).mp hconsumed)
          constructor
          · omega
          · omega
    constructor
    · intro τ
      by_cases hrow : ∃ t ∈ s.tasks, t.id = τ
      · obtain ⟨t, ht, rfl⟩ := hrow
        exact (hcases t ht).1
      · exact entries_reconcile_le env s fun t ht hid => hrow ⟨t, ht, hid⟩
    · exact fun t ht => (hcases t ht).2

/-- One message, held by an engine that has died for ten minutes. -/
def abandoned : Streams where
  messages := [⟨"transcribe", 1, some 0, true, some ⟨"engine", 600000, 1⟩⟩]
  queues := ["transcribe"]
  nextId := fun _ => 2
  groups := fun _ => some 1
  ordered := List.pairwise_singleton _ _
  positive := by decide
  below := by decide
  delivered := by decide
  ahead := fun _ => Nat.lt_succ_self 1
  listed := by decide
  scanned := List.nodup_singleton _

/-- The task was queued to the stream, and is ready still. -/
def abandonedStore : Store where
  tasks := [⟨0, 0, "transcribe", "transcribe", .ready, none, none, none⟩]
  uniqueId := by simp
  streams := abandoned
  metadata := fun _ => some ⟨some "transcribe", none, none, some 0, some 1⟩
  published := []

/-- The task of a dead engine is added once for its entry and once for its metadata. -/
theorem requeued_twice : ¬ ∀ (env : Env) (s : Store), RequeuedOnce env s := by
  intro hclaim
  have hone := (hclaim sampleEnv abandonedStore).1 0
  revert hone
  decide +kernel

end Dalston.Reconciler
