import Dalston.Reconciler.Orphans

/-!
# What the repair steps do to the streams

Each step of the pass is summed up by what it does to the numbers of entries of a
task and to the pending messages. The step for ended tasks acknowledges their first
pending entries; the step for stale entries adds a message for each and acknowledges
the entry; the step for consumed messages adds one message for each task; and
completing stuck jobs adds messages of new tasks only.
-/

namespace Dalston.Reconciler

open Foundation Model

/-- The first match of the first entries is still found when others are left out. -/
theorem find?_take_filter {A : Type} {p keep : A → Bool} {l : List A} {n : Nat} {a : A}
    (h : (l.take n).find? p = some a) (hkeep : keep a = true) :
    ((l.filter keep).take n).find? p = some a := by
  have hmore : ∀ (l : List A) (n : Nat), (l.take n).find? p = some a →
      (l.take (n + 1)).find? p = some a := by
    intro l n h
    obtain ⟨rest, hrest⟩ := List.take_prefix_take_left (l := l) (Nat.le_succ n)
    rw [← hrest, List.find?_append, h]
    rfl
  induction l generalizing n with
  | nil => simp at h
  | cons x xs ih =>
      cases n with
      | zero => simp at h
      | succ n =>
          rw [List.take_succ_cons, List.find?_cons] at h
          rcases hp : p x with _ | _
          · rw [hp] at h
            by_cases hx : keep x = true
            · rw [List.filter_cons_of_pos hx, List.take_succ_cons, List.find?_cons, hp]
              exact ih h
            · rw [List.filter_cons_of_neg hx]
              exact hmore _ _ (ih h)
          · rw [hp] at h
            obtain rfl := Option.some.inj h
            rw [List.filter_cons_of_pos hkeep, List.take_succ_cons, List.find?_cons, hp]

section AckAll

namespace Streams

/-- Acknowledge the messages one after the other. -/
def ackAll (s : Streams) (acks : List (String × MessageId)) : Streams :=
  acks.foldl (fun s x => s.ackTask x.1 x.2) s

variable {s : Streams} {acks : List (String × MessageId)} {queue : String} {id : MessageId}
  {τ : Uuid}

theorem ackAll_concat (x : String × MessageId) :
    s.ackAll (acks ++ [x]) = (s.ackAll acks).ackTask x.1 x.2 := by
  rw [ackAll, List.foldl_append]
  rfl

theorem groups_ackAll : (s.ackAll acks).groups = s.groups := by
  induction acks generalizing s with
  | nil => rfl
  | cons x rest ih => exact ih

theorem entries_ackAll : (s.ackAll acks).entries τ = s.entries τ := by
  induction acks generalizing s with
  | nil => rfl
  | cons x rest ih => exact ih.trans entries_ackTask

theorem holds_ackAll {t : Option Uuid} :
    (s.ackAll acks).Holds queue id t ↔ s.Holds queue id t ∧ (queue, id) ∉ acks := by
  induction acks generalizing s with
  | nil => simp [ackAll]
  | cons x rest ih =>
      have hstep : (s.ackAll (x :: rest)).Holds queue id t ↔
          (s.ackTask x.1 x.2).Holds queue id t ∧ (queue, id) ∉ rest := ih
      rw [hstep, holds_ackTask, List.mem_cons, Prod.ext_iff]
      tauto

/-- Every acknowledged message of a task is one live entry less. -/
theorem liveEntries_ackAll {A : Type} (xs : List A) (key : A → String × MessageId)
    (task : A → Option Uuid) (τ : Uuid) (hnodup : (xs.map key).Nodup)
    (hholds : ∀ x ∈ xs, s.Holds (key x).1 (key x).2 (task x)) :
    (s.ackAll (xs.map key)).liveEntries τ + xs.countP (task · = some τ) = s.liveEntries τ := by
  induction xs generalizing s with
  | nil => rfl
  | cons x rest ih =>
      obtain ⟨hfirst, hrest⟩ := List.nodup_cons.mp hnodup
      have hstay : ∀ y ∈ rest, (s.ackTask (key x).1 (key x).2).Holds (key y).1 (key y).2 (task y) := by
        intro y hy
        refine holds_ackTask.mpr ⟨hholds y (List.mem_cons_of_mem _ hy), ?_⟩
        rintro ⟨hqueue, hid⟩
        exact hfirst (List.mem_map.mpr ⟨y, hy, Prod.ext hqueue hid⟩)
      have hlive := liveEntries_ackTask (τ := τ) (hholds x List.mem_cons_self)
      have hcount : (x :: rest).countP (task · = some τ) =
          rest.countP (task · = some τ) + (decide (task x = some τ)).toNat := by
        rw [List.countP_cons]
        by_cases h : task x = some τ <;> simp [h]
      have hgoal := ih hrest hstay
      rw [hcount]
      change ((s.ackTask (key x).1 (key x).2).ackAll (rest.map key)).liveEntries τ + _ = _
      omega

theorem messages_ackAll : (s.ackAll acks).messages =
    s.messages.map fun m => if (m.queue, m.id) ∈ acks then { m with claim := none } else m := by
  induction acks generalizing s with
  | nil => simp [ackAll]
  | cons x rest ih =>
      have hstep : (s.ackAll (x :: rest)).messages = _ := ih (s := s.ackTask x.1 x.2)
      rw [hstep]
      change (s.messages.map (StreamMessage.ack x.1 x.2)).map _ = _
      rw [List.map_map]
      apply List.map_congr_left
      intro m _
      simp only [Function.comp_apply, StreamMessage.ack_queue, StreamMessage.ack_id,
        List.mem_cons, Prod.ext_iff]
      by_cases hx : m.queue = x.1 ∧ m.id = x.2
      · simp [StreamMessage.ack, hx]
      · simp [StreamMessage.ack, hx]

/-- The first pending entry of a task is found as long as it is not acknowledged itself. -/
theorem find?_getPending_ackAll {p : PendingTask → Bool} {e : PendingTask}
    (h : (s.getPending queue).find? p = some e) (hnot : (queue, e.messageId) ∉ acks) :
    ((s.ackAll acks).getPending queue).find? p = some e := by
  have hpending : ∀ ms : List StreamMessage,
      (((ms.map fun m => if (m.queue, m.id) ∈ acks then { m with claim := none } else m).filter
        (·.queue = queue)).filterMap StreamMessage.pendingTask?) =
      ((ms.filter (·.queue = queue)).filterMap StreamMessage.pendingTask?).filter
        fun e => (queue, e.messageId) ∉ acks := by
    intro ms
    induction ms with
    | nil => rfl
    | cons m rest ih =>
        by_cases hqueue : m.queue = queue
        · subst hqueue
          by_cases hack : (m.queue, m.id) ∈ acks
          · rcases hclaim : m.claim with _ | claim <;>
              simp [hack, hclaim, StreamMessage.pendingTask?, ih]
          · rcases hclaim : m.claim with _ | claim <;>
              simp [hack, hclaim, StreamMessage.pendingTask?, ih]
        · by_cases hack : (m.queue, m.id) ∈ acks <;> simp [hack, hqueue, ih]
  rw [getPending, messages_ackAll, hpending]
  exact find?_take_filter h (by simpa using hnot)

end Streams

end AckAll

section Snapshots

variable {s : Streams} {queue : String} {e e' : PendingTask}

theorem eq_of_messageId (h : e ∈ s.getPending queue) (h' : e' ∈ s.getPending queue)
    (hid : e.messageId = e'.messageId) : e = e' :=
  List.inj_on_of_nodup_map (Streams.ordered_getPending.imp Nat.ne_of_lt) h h' hid

theorem map_taskId_setEntry (entries : List PendingTask) (entry : PendingTask) :
    (setEntry entries entry).map (·.taskId) =
      if entries.any (·.taskId = entry.taskId) then entries.map (·.taskId)
      else entries.map (·.taskId) ++ [entry.taskId] := by
  rw [setEntry]
  split
  · rw [List.map_map]
    apply List.map_congr_left
    intro e _
    simp only [Function.comp_apply]
    split
    · rename_i h
      exact h.symm
    · rfl
  · simp

theorem mem_setEntry {entries : List PendingTask} {entry : PendingTask}
    (h : e ∈ setEntry entries entry) : e ∈ entries ∨ e = entry := by
  rw [setEntry] at h
  split at h
  · obtain ⟨e', he', rfl⟩ := List.mem_map.mp h
    split
    · exact Or.inr rfl
    · exact Or.inl he'
  · simpa using h

/-- The dictionary of a stage holds each task once, with one of its entries. -/
theorem entriesByTask_spec (pending : List PendingTask) :
    ((entriesByTask pending).map (·.taskId)).Nodup ∧ entriesByTask pending ⊆ pending := by
  induction pending using List.reverseRecOn with
  | nil => exact ⟨List.nodup_nil, List.nil_subset _⟩
  | append_singleton pending entry ih =>
      have hstep : entriesByTask (pending ++ [entry]) = setEntry (entriesByTask pending) entry := by
        rw [entriesByTask, List.foldl_append]
        rfl
      rw [hstep]
      constructor
      · rw [map_taskId_setEntry]
        split
        · exact ih.1
        · rename_i hnew
          refine List.nodup_append'.mpr ⟨ih.1, List.nodup_singleton _, ?_⟩
          intro t ht ht'
          obtain ⟨e, he, rfl⟩ := List.mem_map.mp ht
          exact hnew (List.any_eq_true.mpr ⟨e, he, by simpa using ht'⟩)
      · intro e he
        rcases mem_setEntry he with hold | rfl
        · exact List.mem_append_left _ (ih.2 hold)
        · simp

theorem mem_pelEntriesByStage {x : String × PendingTask}
    (h : x ∈ pelEntriesByStage (snapshot s)) : x.2 ∈ s.getPending x.1 := by
  obtain ⟨y, hy, hx⟩ := List.mem_flatMap.mp h
  obtain ⟨queue, _, rfl⟩ := List.mem_map.mp hy
  obtain ⟨e, he, rfl⟩ := List.mem_map.mp hx
  exact (entriesByTask_spec _).2 he

/-- No message occurs twice among the entries. -/
theorem nodup_pelEntriesByStage :
    ((pelEntriesByStage (snapshot s)).map fun x => (x.1, x.2.messageId)).Nodup := by
  rw [pelEntriesByStage, snapshot, List.flatMap_map, List.map_flatMap, List.nodup_flatMap]
  constructor
  · intro queue _
    rw [List.map_map]
    have hspec := entriesByTask_spec (s.getPending queue)
    have hids : ((entriesByTask (s.getPending queue)).map (·.messageId)).Nodup := by
      refine List.Nodup.map_on ?_ hspec.1.of_map
      intro e he e' he' hid
      exact eq_of_messageId (hspec.2 he) (hspec.2 he') hid
    have hpairs := hids.map (f := Prod.mk queue) (Prod.mk_right_injective queue)
    simpa [Function.comp_def] using hpairs
  · refine s.scanned.imp ?_
    intro queue queue' hne x hx hx'
    obtain ⟨_, he, rfl⟩ := List.mem_map.mp hx
    obtain ⟨_, _, rfl⟩ := List.mem_map.mp he
    obtain ⟨_, he', heq⟩ := List.mem_map.mp hx'
    obtain ⟨_, _, rfl⟩ := List.mem_map.mp he'
    exact hne (Prod.ext_iff.mp heq).1.symm

/-- A task of a stage has a pending entry there. -/
theorem mem_pelByStage {x : String × Uuid} (h : x ∈ pelByStage (snapshot s)) :
    ∃ e ∈ s.getPending x.1, e.taskId = some x.2 := by
  obtain ⟨y, hy, hx⟩ := List.mem_flatMap.mp h
  obtain ⟨queue, _, rfl⟩ := List.mem_map.mp hy
  obtain ⟨id, hid, rfl⟩ := List.mem_map.mp hx
  exact List.mem_filterMap.mp (List.mem_dedup.mp hid)

theorem mem_pelByStage_of_pending {τ : Uuid} (he : e ∈ s.getPending queue)
    (htask : e.taskId = some τ) : (queue, τ) ∈ pelByStage (snapshot s) := by
  obtain ⟨t, ⟨m, hm, hqueue, _⟩, _⟩ := Streams.holds_of_getPending he
  refine List.mem_flatMap.mpr ⟨(queue, s.getPending queue), ?_, ?_⟩
  · exact List.mem_map.mpr ⟨queue, hqueue ▸ s.listed m hm, rfl⟩
  · exact List.mem_map.mpr ⟨τ, List.mem_dedup.mpr (List.mem_filterMap.mpr ⟨e, he, htask⟩), rfl⟩

theorem nodup_pelByStage : (pelByStage (snapshot s)).Nodup := by
  rw [pelByStage, snapshot, List.flatMap_map, List.nodup_flatMap]
  constructor
  · exact fun queue _ => (List.nodup_dedup _).map (Prod.mk_right_injective queue)
  · refine s.scanned.imp ?_
    intro queue queue' hne x hx hx'
    obtain ⟨_, _, rfl⟩ := List.mem_map.mp hx
    obtain ⟨_, _, heq⟩ := List.mem_map.mp hx'
    exact hne (Prod.ext_iff.mp heq).1.symm

end Snapshots

section EndedTasks

variable {s : Store} {x x' : String × Uuid} {y : String × MessageId}

/-- The entry that is acknowledged for a task of a stage, if the task has ended. -/
def endedEntry (s : Store) (x : String × Uuid) : Option (String × MessageId) :=
  if (s.row? x.2).any (·.hasEnded) then
    ((s.streams.getPending x.1).find? (·.taskId = some x.2)).map fun e => (x.1, e.messageId)
  else none

theorem endedEntry_eq_some : endedEntry s x = some y ↔
    (s.row? x.2).any (·.hasEnded) = true ∧
      ∃ e, (s.streams.getPending x.1).find? (·.taskId = some x.2) = some e ∧
        (x.1, e.messageId) = y := by
  rw [endedEntry]
  split
  · rename_i h
    simp [h, Option.map_eq_some_iff]
  · rename_i h
    simp [h]

/-- An entry is acknowledged for one task only. -/
theorem endedEntry_inj (h : endedEntry s x = some y) (h' : endedEntry s x' = some y) : x = x' := by
  obtain ⟨_, e, he, rfl⟩ := endedEntry_eq_some.mp h
  obtain ⟨_, e', he', heq⟩ := endedEntry_eq_some.mp h'
  obtain ⟨queue, τ⟩ := x
  obtain ⟨queue', τ'⟩ := x'
  obtain ⟨rfl, hid⟩ := Prod.ext_iff.mp heq
  obtain rfl := eq_of_messageId (List.mem_of_find?_eq_some he) (List.mem_of_find?_eq_some he')
    hid.symm
  have hτ : e.taskId = some τ := by simpa using List.find?_some he
  have hτ' : e.taskId = some τ' := by simpa using List.find?_some he'
  rw [Option.some.inj (hτ.symm.trans hτ')]

/-- The tasks are looked at one after the other, each in the streams it finds. -/
theorem foldl_ackIfEnded {xs : List (String × Uuid)} {acks : List (String × MessageId)}
    (hnodup : xs.Nodup)
    (hvisible : ∀ x ∈ xs, ∃ e ∈ s.streams.getPending x.1, e.taskId = some x.2)
    (hfresh : ∀ x ∈ xs, ∀ y, endedEntry s x = some y → y ∉ acks) :
    xs.foldl ackIfEnded { s with streams := s.streams.ackAll acks } =
      { s with streams := s.streams.ackAll (acks ++ xs.filterMap (endedEntry s)) } := by
  induction xs generalizing acks with
  | nil => simp
  | cons x rest ih =>
      obtain ⟨hfirst, hrest⟩ := List.nodup_cons.mp hnodup
      have hrow : ({ s with streams := s.streams.ackAll acks } : Store).row? = s.row? := rfl
      rw [List.foldl_cons, ackIfEnded, hrow]
      by_cases hended : (s.row? x.2).any (·.hasEnded) = true
      · obtain ⟨e, he, htask⟩ := hvisible x List.mem_cons_self
        obtain ⟨e, hfind⟩ := Option.isSome_iff_exists.mp
          (List.find?_isSome (p := fun e : PendingTask => decide (e.taskId = some x.2)).mpr
            ⟨e, he, by simpa using htask⟩)
        have hsome : endedEntry s x = some (x.1, e.messageId) :=
          endedEntry_eq_some.mpr ⟨hended, e, hfind, rfl⟩
        have hfound := Streams.find?_getPending_ackAll hfind
          (hfresh x List.mem_cons_self _ hsome)
        have hack : ackEntry { s with streams := s.streams.ackAll acks } x.1 x.2 =
            { s with streams := s.streams.ackAll (acks ++ [(x.1, e.messageId)]) } := by
          rw [ackEntry, hfound, Streams.ackAll_concat]
          rfl
        rw [if_pos hended, hack, List.filterMap_cons_some hsome,
          ih hrest (fun y hy => hvisible y (List.mem_cons_of_mem _ hy)), List.append_assoc]
        · rfl
        · intro x' hx' y hy hmem
          rcases List.mem_append.mp hmem with hold | hnew
          · exact hfresh x' (List.mem_cons_of_mem _ hx') y hy hold
          · obtain rfl := List.mem_singleton.mp hnew
            exact hfirst (endedEntry_inj hsome hy ▸ hx')
      · have hnone : endedEntry s x = none := if_neg hended
        rw [if_neg hended, List.filterMap_cons_none hnone]
        exact ih hrest (fun y hy => hvisible y (List.mem_cons_of_mem _ hy))
          fun y hy => hfresh y (List.mem_cons_of_mem _ hy)

/-- The entries that are acknowledged for ended tasks. -/
def endedEntries (s : Store) : List (String × MessageId) :=
  (pelByStage (snapshot s.streams)).filterMap (endedEntry s)

theorem reconcileOrphanedPelEntries_eq (s : Store) :
    reconcileOrphanedPelEntries (snapshot s.streams) s =
      { s with streams := s.streams.ackAll (endedEntries s) } := by
  have hvisible : ∀ x ∈ pelByStage (snapshot s.streams),
      ∃ e ∈ s.streams.getPending x.1, e.taskId = some x.2 := fun _ => mem_pelByStage
  exact foldl_ackIfEnded nodup_pelByStage hvisible fun _ _ _ _ => List.not_mem_nil

theorem mem_endedEntries : y ∈ endedEntries s ↔ ∃ τ, endedEntry s (y.1, τ) = some y := by
  rw [endedEntries, List.mem_filterMap]
  constructor
  · rintro ⟨⟨queue, τ⟩, _, h⟩
    obtain ⟨_, e, _, rfl⟩ := endedEntry_eq_some.mp h
    exact ⟨τ, h⟩
  · rintro ⟨τ, h⟩
    obtain ⟨_, e, he, _⟩ := endedEntry_eq_some.mp h
    have htask : e.taskId = some τ := by simpa using List.find?_some he
    exact ⟨_, mem_pelByStage_of_pending (List.mem_of_find?_eq_some he) htask, h⟩

theorem nodup_endedEntries : (endedEntries s).Nodup := by
  refine List.Nodup.filterMap ?_ nodup_pelByStage
  intro x x' y hy hy'
  exact endedEntry_inj hy hy'

/-- The live entries of a task that has not ended stay. -/
theorem liveEntries_endedEntries {τ : Uuid} (h : (s.row? τ).any (·.hasEnded) = false) :
    (s.streams.ackAll (endedEntries s)).liveEntries τ = s.streams.liveEntries τ := by
  -- what is acknowledged was added for an ended task
  have hheld : ∀ y ∈ endedEntries s, ∃ τ', (s.row? τ').any (·.hasEnded) = true ∧
      s.streams.Holds y.1 y.2 (some τ') := by
    intro y hy
    obtain ⟨τ', hτ'⟩ := mem_endedEntries.mp hy
    obtain ⟨hended, e, he, heq⟩ := endedEntry_eq_some.mp hτ'
    obtain ⟨t, ht, htask⟩ := Streams.holds_of_getPending (List.mem_of_find?_eq_some he)
    have hsome : e.taskId = some τ' := by simpa using List.find?_some he
    obtain rfl := htask τ' hsome
    exact ⟨τ', hended, (Prod.ext_iff.mp heq).2 ▸ ht⟩
  choose! task hended hholds using hheld
  have hcount := Streams.liveEntries_ackAll (endedEntries s) id (fun y => some (task y)) τ
    (by simpa using nodup_endedEntries) hholds
  have hzero : (endedEntries s).countP (fun y => decide (some (task y) = some τ)) = 0 := by
    rw [List.countP_eq_zero]
    intro y hy heq
    have htask : task y = τ := by simpa using heq
    rw [← htask, hended y hy] at h
    cases h
  rw [hzero, List.map_id] at hcount
  exact hcount

end EndedTasks

section StaleEntries

variable {env : Env} {s : Store} {x : String × PendingTask} {τ : Uuid}

theorem isStale_congr {s' : Store} (h : s'.tasks = s.tasks) (e : PendingTask) :
    isStale env s' e = isStale env s e := by
  have hrow : s'.row? = s.row? := by
    funext id
    rw [Store.row?, h, Store.row?]
  unfold isStale
  rw [hrow]

theorem taskId_of_isStale (h : isStale env s x.2 = true) : ∃ τ, x.2.taskId = some τ := by
  rcases htask : x.2.taskId with _ | τ
  · unfold isStale at h
    simp only [htask, Option.bind_none, Option.any_none, Bool.false_and, Bool.and_false,
      Bool.false_eq_true] at h
  · exact ⟨τ, rfl⟩

/-- A stream with a pending message has a group. -/
theorem isSome_of_holds {s : Streams} {queue : String} {id : MessageId} {t : Option Uuid}
    (h : s.Holds queue id t) : (s.groups queue).isSome = true := by
  obtain ⟨m, hm, rfl, rfl, hclaim, _⟩ := h
  have hle := s.delivered m hm hclaim
  have hpos := s.positive m hm
  rcases hgroup : s.groups m.queue with _ | last
  · rw [hgroup, Option.getD_none] at hle
    exact absurd (Nat.lt_of_lt_of_le hpos hle) (Nat.lt_irrefl 0)
  · rfl

/-- The stale entries among the given ones are repeated: each is added again and
acknowledged. -/
structure Repeats (env : Env) (s : Store) (xs : List (String × PendingTask)) (s' : Store) :
    Prop where
  tasks : s'.tasks = s.tasks
  metadata : s'.metadata = s.metadata
  groups : s'.streams.groups = s.streams.groups
  entries : ∀ τ, s'.streams.entries τ = s.streams.entries τ +
    xs.countP fun x => isStale env s x.2 && x.2.taskId = some τ
  liveEntries : ∀ τ, s'.streams.liveEntries τ = s.streams.liveEntries τ
  holds : ∀ queue id t, s'.streams.Holds queue id t ↔ s.streams.Holds queue id t ∧
    ∀ x ∈ xs, isStale env s x.2 = true → ¬ (queue = x.1 ∧ id = x.2.messageId)

theorem repeats_one (hheld : isStale env s x.2 = true →
      s.streams.Holds x.1 x.2.messageId x.2.taskId) :
    Repeats env s [x] (requeueIfStale env s x) := by
  rw [requeueIfStale]
  by_cases hstale : isStale env s x.2 = true
  · obtain ⟨τ, htask⟩ := taskId_of_isStale hstale
    have hheld := hheld hstale
    rw [if_pos hstale, requeueEntry, htask]
    constructor
    case tasks => rfl
    case metadata => rfl
    case groups =>
      have hadded : (s.streams.addTask x.1 τ).groups = s.streams.groups :=
        Streams.groups_addTask (isSome_of_holds hheld)
      exact hadded
    case entries =>
      intro τ'
      rw [List.countP_singleton, hstale, htask]
      change ((s.streams.addTask x.1 τ).ackTask x.1 x.2.messageId).entries τ' = _
      rw [Streams.entries_ackTask, Streams.entries_addTask]
      by_cases h : τ = τ' <;> simp [h]
    case liveEntries =>
      intro τ'
      have hadded : (s.streams.addTask x.1 τ).Holds x.1 x.2.messageId (some τ) :=
        Streams.holds_addTask.mpr (htask ▸ hheld)
      have hack : ((s.streams.addTask x.1 τ).ackTask x.1 x.2.messageId).liveEntries τ' +
          (decide (some τ = some τ')).toNat = (s.streams.addTask x.1 τ).liveEntries τ' :=
        Streams.liveEntries_ackTask hadded
      simp only [Streams.liveEntries_addTask, Option.some.injEq] at hack
      exact Nat.add_right_cancel hack
    case holds =>
      intro queue id t
      change ((s.streams.addTask x.1 τ).ackTask x.1 x.2.messageId).Holds queue id t ↔ _
      rw [Streams.holds_ackTask, Streams.holds_addTask]
      simp [hstale]
  · rw [if_neg hstale]
    constructor
    case tasks => rfl
    case metadata => rfl
    case groups => rfl
    case entries => simp [hstale]
    case liveEntries => exact fun _ => rfl
    case holds => simp [hstale]

/-- Entries of different messages are repeated one after the other. -/
theorem repeats_foldl {xs : List (String × PendingTask)}
    (hnodup : (xs.map fun x => (x.1, x.2.messageId)).Nodup)
    (hheld : ∀ x ∈ xs, isStale env s x.2 = true → s.streams.Holds x.1 x.2.messageId x.2.taskId) :
    Repeats env s xs (xs.foldl (requeueIfStale env) s) := by
  induction xs generalizing s with
  | nil => exact ⟨rfl, rfl, rfl, by simp, fun _ => rfl, by simp⟩
  | cons x rest ih =>
      obtain ⟨hfirst, hrest⟩ := List.nodup_cons.mp hnodup
      have hone := repeats_one (hheld x List.mem_cons_self)
      have hsame (e : PendingTask) : isStale env (requeueIfStale env s x) e = isStale env s e :=
        isStale_congr hone.tasks e
      have hstep := ih (s := requeueIfStale env s x) hrest (by
        intro y hy hstale
        rw [hsame] at hstale
        refine (hone.holds _ _ _).mpr ⟨hheld y (List.mem_cons_of_mem _ hy) hstale, ?_⟩
        intro x' hx' _ heq
        rw [List.mem_singleton.mp hx'] at heq
        exact hfirst (List.mem_map.mpr ⟨y, hy, Prod.ext heq.1 heq.2⟩))
      rw [List.foldl_cons]
      constructor
      case tasks => exact hstep.tasks.trans hone.tasks
      case metadata => exact hstep.metadata.trans hone.metadata
      case groups => exact hstep.groups.trans hone.groups
      case entries =>
        intro τ
        have h₁ := hone.entries τ
        have h₂ := hstep.entries τ
        simp only [hsame] at h₂
        rw [h₂, h₁, Nat.add_assoc, ← List.countP_append]
        rfl
      case liveEntries => exact fun τ => (hstep.liveEntries τ).trans (hone.liveEntries τ)
      case holds =>
        intro queue id t
        rw [hstep.holds, hone.holds]
        simp only [hsame, List.mem_singleton, forall_eq, List.forall_mem_cons]
        tauto

end StaleEntries

section ConsumedMessages

variable {env : Env} {s : Store} {t : TaskRow} {τ : Uuid}

/-- The message of the task's metadata was consumed. -/
def namesConsumed (env : Env) (s : Store) (t : TaskRow) : Bool :=
  (namedMessage env s t).any (isConsumed s.streams)

/-- A message is added for each of the tasks whose message was consumed. -/
structure Renames (env : Env) (s : Store) (ts : List TaskRow) (s' : Store) : Prop where
  groups : s'.streams.groups = s.streams.groups
  pending : ∀ queue id, s'.streams.isPending queue id = s.streams.isPending queue id
  metadata : ∀ τ, (∀ t ∈ ts, t.id ≠ τ) → s'.metadata τ = s.metadata τ
  entries : ∀ τ, s'.streams.entries τ = s.streams.entries τ +
    ts.countP fun t => namesConsumed env s t && t.id = τ
  liveEntries : ∀ τ, s'.streams.liveEntries τ = s.streams.liveEntries τ +
    ts.countP fun t => namesConsumed env s t && t.id = τ

theorem streams_requeueNamed (queueId : String) :
    (requeueNamed s t queueId).streams = s.streams.addTask queueId t.id := by
  simp only [requeueNamed]
  split <;> rfl

theorem metadata_requeueNamed (queueId : String) (h : t.id ≠ τ) :
    (requeueNamed s t queueId).metadata τ = s.metadata τ := by
  simp only [requeueNamed]
  split
  · rfl
  · exact Function.update_of_ne h.symm _ _

theorem renames_one : Renames env s [t] (requeueIfConsumed env s t) := by
  rw [requeueIfConsumed]
  rcases hnamed : (namedMessage env s t).filter (isConsumed s.streams) with _ | ⟨queueId, id⟩
  · have hnot : namesConsumed env s t = false := by
      rw [namesConsumed]
      rcases hmessage : namedMessage env s t with _ | y
      · rfl
      · rw [hmessage, Option.filter_eq_none_iff] at hnamed
        simpa using hnamed
    exact ⟨rfl, fun _ _ => rfl, fun _ _ => rfl, by simp [hnot], by simp [hnot]⟩
  · obtain ⟨hmessage, hconsumed⟩ := Option.filter_eq_some_iff.mp hnamed
    have hyes : namesConsumed env s t = true := by simp [namesConsumed, hmessage, hconsumed]
    have hgroup : (s.streams.groups queueId).isSome = true := by
      simp only [isConsumed, Streams.isDelivered, Bool.and_eq_true] at hconsumed
      rcases hg : s.streams.groups queueId with _ | last
      · simp [hg] at hconsumed
      · rfl
    constructor
    case groups =>
      rw [streams_requeueNamed]
      exact Streams.groups_addTask hgroup
    case pending =>
      intro queue id'
      rw [streams_requeueNamed, Streams.isPending_addTask]
    case metadata =>
      intro τ hne
      exact metadata_requeueNamed queueId (hne t List.mem_cons_self)
    case entries =>
      intro τ
      rw [streams_requeueNamed, Streams.entries_addTask, List.countP_singleton, hyes]
      by_cases h : t.id = τ <;> simp [h]
    case liveEntries =>
      intro τ
      rw [streams_requeueNamed, Streams.liveEntries_addTask, List.countP_singleton, hyes]
      by_cases h : t.id = τ <;> simp [h]

/-- Different tasks are looked at one after the other. -/
theorem renames_foldl {ts : List TaskRow} (hnodup : (ts.map (·.id)).Nodup) :
    Renames env s ts (ts.foldl (requeueIfConsumed env) s) := by
  induction ts generalizing s with
  | nil => exact ⟨rfl, fun _ _ => rfl, fun _ _ => rfl, by simp, by simp⟩
  | cons t rest ih =>
      obtain ⟨hfirst, hrest⟩ := List.nodup_cons.mp hnodup
      have hone : Renames env s [t] (requeueIfConsumed env s t) := renames_one
      have hstep := ih (s := requeueIfConsumed env s t) hrest
      have hsame : ∀ u ∈ rest,
          namesConsumed env (requeueIfConsumed env s t) u = namesConsumed env s u := by
        intro u hu
        have hne : t.id ≠ u.id := fun h => hfirst (List.mem_map.mpr ⟨u, hu, h.symm⟩)
        have hmetadata := hone.metadata u.id (by simpa using hne)
        have hconsumed : isConsumed (requeueIfConsumed env s t).streams = isConsumed s.streams := by
          funext y
          simp only [isConsumed, Streams.isDelivered, hone.pending, hone.groups]
        rw [namesConsumed, namedMessage, hmetadata, hconsumed]
        rfl
      have hcount (τ : Uuid) : rest.countP
            (fun u => namesConsumed env (requeueIfConsumed env s t) u && u.id = τ) =
          rest.countP fun u => namesConsumed env s u && u.id = τ :=
        List.countP_congr fun u hu => by rw [hsame u hu]
      rw [List.foldl_cons]
      constructor
      case groups => exact hstep.groups.trans hone.groups
      case pending => exact fun queue id => (hstep.pending queue id).trans (hone.pending queue id)
      case metadata =>
        intro τ hne
        rw [hstep.metadata τ fun u hu => hne u (List.mem_cons_of_mem _ hu)]
        exact hone.metadata τ (by simpa using hne t List.mem_cons_self)
      case entries =>
        intro τ
        rw [hstep.entries, hcount, hone.entries, Nat.add_assoc, ← List.countP_append]
        rfl
      case liveEntries =>
        intro τ
        rw [hstep.liveEntries, hcount, hone.liveEntries, Nat.add_assoc, ← List.countP_append]
        rfl

end ConsumedMessages

section StuckJobs

variable {s : Store} {τ : Uuid}

/-- A new task gets at most one message; the old ones get none. -/
theorem startPostProcessing_spec (s : Store) (p : PostProcessing) (τ : Uuid) :
    ((∃ t ∈ s.tasks, t.id = τ) →
      (startPostProcessing s p).streams.entries τ = s.streams.entries τ ∧
        (startPostProcessing s p).streams.liveEntries τ = s.streams.liveEntries τ) ∧
    ((∀ t ∈ s.tasks, t.id ≠ τ) →
      (startPostProcessing s p).streams.entries τ = s.streams.entries τ ∨
        (startPostProcessing s p).streams.entries τ = s.streams.entries τ + 1 ∧
          ∃ t ∈ (startPostProcessing s p).tasks, t.id = τ) := by
  rw [startPostProcessing]
  split
  · rename_i hnew
    cases p.queueId with
    | none => exact ⟨fun _ => ⟨rfl, rfl⟩, fun _ => Or.inl rfl⟩
    | some queueId =>
        have hentries : (queueFirst (s.insert _ hnew) p (some queueId)).streams.entries τ =
            s.streams.entries τ + (decide (p.first.id = τ)).toNat := Streams.entries_addTask
        have hlive : (queueFirst (s.insert _ hnew) p (some queueId)).streams.liveEntries τ =
            s.streams.liveEntries τ + (decide (p.first.id = τ)).toNat := Streams.liveEntries_addTask
        rw [hentries, hlive]
        by_cases h : p.first.id = τ
        · constructor
          · rintro ⟨t, ht, hid⟩
            rw [Store.Insertable, List.map_append, List.map_cons, List.nodup_append'] at hnew
            exact absurd (List.mem_map.mpr ⟨t, ht, hid.trans h.symm⟩)
              fun hmem => hnew.2.2 hmem List.mem_cons_self
          · intro _
            right
            refine ⟨by simp [h], { p.first with status := .ready }, ?_, h⟩
            exact List.mem_append_right _ List.mem_cons_self
        · simp [h]
  · exact ⟨fun _ => ⟨rfl, rfl⟩, fun _ => Or.inl rfl⟩

theorem mem_startPostProcessing (p : PostProcessing) (h : ∃ t ∈ s.tasks, t.id = τ) :
    ∃ t ∈ (startPostProcessing s p).tasks, t.id = τ := by
  obtain ⟨t, ht, hid⟩ := h
  obtain ⟨new, hnew⟩ := tasks_startPostProcessing (s := s) p
  exact ⟨t, hnew ▸ List.mem_append_left _ ht, hid⟩

theorem reconcileStuckJobs_old (env : Env) (h : ∃ t ∈ s.tasks, t.id = τ) :
    (reconcileStuckJobs env s).streams.entries τ = s.streams.entries τ ∧
      (reconcileStuckJobs env s).streams.liveEntries τ = s.streams.liveEntries τ := by
  rw [reconcileStuckJobs]
  generalize env.postProcessing = ps
  induction ps generalizing s with
  | nil => exact ⟨rfl, rfl⟩
  | cons p rest ih =>
      have hone := (startPostProcessing_spec s p τ).1 h
      have hrest := ih (mem_startPostProcessing p h)
      exact ⟨hrest.1.trans hone.1, hrest.2.trans hone.2⟩

theorem reconcileStuckJobs_new (env : Env) (s : Store) (τ : Uuid) :
    (reconcileStuckJobs env s).streams.entries τ ≤ s.streams.entries τ + 1 := by
  rw [reconcileStuckJobs]
  generalize env.postProcessing = ps
  induction ps generalizing s with
  | nil => exact Nat.le_succ _
  | cons p rest ih =>
      by_cases h : ∃ t ∈ s.tasks, t.id = τ
      · have hone := (startPostProcessing_spec s p τ).1 h
        exact (ih (startPostProcessing s p)).trans (by rw [hone.1])
      · have hnot : ∀ t ∈ s.tasks, t.id ≠ τ := fun t ht hid => h ⟨t, ht, hid⟩
        rcases (startPostProcessing_spec s p τ).2 hnot with hsame | ⟨hmore, hmem⟩
        · exact (ih (startPostProcessing s p)).trans (by rw [hsame])
        · have hstay := (reconcileStuckJobs_old ⟨env.now, env.outputExists, env.instances, rest⟩
            hmem).1
          exact (hstay.trans hmore).le

end StuckJobs

end Dalston.Reconciler
