import Mathlib
import Dalston.Model.Rows

/-!
# The engine streams

The messages of all engine streams, with the deliveries that were not
acknowledged. A message stays when it is acknowledged; its body may have been
deleted or trimmed at any time. The list of pending messages is read up to a
limit, and a message without its body comes without its task.

## Implementation notes

Message ids are numbered for each stream; a message is one of its stream's pending
messages when it holds a claim. The rules of Redis are fields of the structure: ids
grow, and only delivered messages are claimed.
-/

namespace Dalston.Reconciler

open Foundation Model

abbrev MessageId := Nat

/-- A delivery that was not acknowledged. -/
structure Claim where
  consumer : String
  idleMs : Nat
  deliveryCount : Nat

structure StreamMessage where
  queue : String
  id : MessageId
  /-- The field `task_id`, if it is the id of a task. -/
  taskId : Option Uuid
  /-- The body is still in the stream. -/
  present : Bool
  claim : Option Claim

/-- The streams of all queues, the messages of each in the order of their ids. -/
structure Streams where
  messages : List StreamMessage
  /-- The stream keys, in the order of a scan. -/
  queues : List String
  nextId : String → MessageId
  /-- The last message that was delivered to the group, if the group exists. -/
  groups : String → Option MessageId
  ordered : messages.Pairwise fun m m' => m.queue = m'.queue → m.id < m'.id
  positive : ∀ m ∈ messages, 0 < m.id
  below : ∀ m ∈ messages, m.id < nextId m.queue
  delivered : ∀ m ∈ messages, m.claim.isSome → m.id ≤ (groups m.queue).getD 0
  ahead : ∀ queue, (groups queue).getD 0 < nextId queue
  listed : ∀ m ∈ messages, m.queue ∈ queues
  scanned : queues.Nodup

/-- `PendingTask`. -/
structure PendingTask where
  messageId : MessageId
  taskId : Option Uuid
  consumer : String
  idleMs : Nat
  deliveryCount : Nat

/-- The pending entry of a message, with the task of its body. -/
def StreamMessage.pendingTask? (m : StreamMessage) : Option PendingTask :=
  m.claim.map fun claim => {
    messageId := m.id
    taskId := if m.present then m.taskId else none
    consumer := claim.consumer
    idleMs := claim.idleMs
    deliveryCount := claim.deliveryCount }

/-- Release the message with the id. -/
def StreamMessage.ack (queue : String) (id : MessageId) (m : StreamMessage) : StreamMessage :=
  if m.queue = queue ∧ m.id = id then { m with claim := none } else m

section Ack

variable {queue : String} {id : MessageId} {m : StreamMessage}

@[simp] theorem StreamMessage.ack_queue : (m.ack queue id).queue = m.queue := by
  rw [ack]
  split <;> rfl

@[simp] theorem StreamMessage.ack_id : (m.ack queue id).id = m.id := by
  rw [ack]
  split <;> rfl

@[simp] theorem StreamMessage.ack_taskId : (m.ack queue id).taskId = m.taskId := by
  rw [ack]
  split <;> rfl

@[simp] theorem StreamMessage.ack_present : (m.ack queue id).present = m.present := by
  rw [ack]
  split <;> rfl

/-- A message keeps its claim unless it is the acknowledged one. -/
theorem StreamMessage.claim_ack : (m.ack queue id).claim.isSome ↔
    m.claim.isSome ∧ ¬ (m.queue = queue ∧ m.id = id) := by
  rw [ack]
  split <;> simp_all

end Ack

namespace Streams

/-- `count` of `xpending_range`. -/
def pendingLimit : Nat := 1000

/-- `get_pending`. -/
def getPending (s : Streams) (queue : String) : List PendingTask :=
  ((s.messages.filter (·.queue = queue)).filterMap StreamMessage.pendingTask?).take pendingLimit

def lastDelivered (s : Streams) (queue : String) : MessageId := (s.groups queue).getD 0

/-- `_is_stream_message_pending`. -/
def isPending (s : Streams) (queue : String) (id : MessageId) : Bool :=
  s.messages.any fun m => m.queue = queue && m.id = id && m.claim.isSome

/-- `_is_stream_message_delivered`. -/
def isDelivered (s : Streams) (queue : String) (id : MessageId) : Bool :=
  (s.groups queue).any (id ≤ ·)

/-- The message that is added next. -/
def newMessage (s : Streams) (queue : String) (taskId : Uuid) : StreamMessage :=
  ⟨queue, s.nextId queue, some taskId, true, none⟩

/-- `add_task`; a group that does not exist is created at the beginning of its stream. -/
def addTask (s : Streams) (queue : String) (taskId : Uuid) : Streams where
  messages := s.messages ++ [s.newMessage queue taskId]
  queues := if queue ∈ s.queues then s.queues else s.queues ++ [queue]
  nextId := Function.update s.nextId queue (s.nextId queue + 1)
  groups := Function.update s.groups queue (some (s.lastDelivered queue))
  ordered := by
    rw [List.pairwise_append]
    refine ⟨s.ordered, List.pairwise_singleton _ _, ?_⟩
    intro m hm m' hm' hqueue
    rw [List.mem_singleton.mp hm'] at hqueue ⊢
    have hbelow := s.below m hm
    rw [show m.queue = queue from hqueue] at hbelow
    exact hbelow
  positive := by
    intro m hm
    rcases List.mem_append.mp hm with hm | hm
    · exact s.positive m hm
    · rw [List.mem_singleton.mp hm]
      exact Nat.lt_of_le_of_lt (Nat.zero_le _) (s.ahead queue)
  below := by
    intro m hm
    rcases List.mem_append.mp hm with hm | hm
    · by_cases hqueue : m.queue = queue
      · rw [hqueue, Function.update_self]
        exact Nat.lt_succ_of_lt (hqueue ▸ s.below m hm)
      · rw [Function.update_of_ne hqueue]
        exact s.below m hm
    · rw [List.mem_singleton.mp hm]
      simp [newMessage]
  delivered := by
    intro m hm hclaim
    rcases List.mem_append.mp hm with hm | hm
    · have hle := s.delivered m hm hclaim
      by_cases hqueue : m.queue = queue
      · rw [hqueue, Function.update_self]
        exact hqueue ▸ hle
      · rw [Function.update_of_ne hqueue]
        exact hle
    · rw [List.mem_singleton.mp hm] at hclaim
      cases hclaim
  ahead := by
    intro other
    by_cases hqueue : other = queue
    · rw [hqueue, Function.update_self, Function.update_self]
      exact Nat.lt_succ_of_lt (s.ahead queue)
    · rw [Function.update_of_ne hqueue, Function.update_of_ne hqueue]
      exact s.ahead other
  listed := by
    intro m hm
    rcases List.mem_append.mp hm with hm | hm
    · have hmem := s.listed m hm
      split
      · exact hmem
      · exact List.mem_append_left _ hmem
    · rw [List.mem_singleton.mp hm]
      split
      · assumption
      · simp [newMessage]
  scanned := by
    split
    · exact s.scanned
    · rename_i hnew
      exact List.nodup_append'.mpr ⟨s.scanned, List.nodup_singleton _, by simpa using hnew⟩

/-- `ack_task`. -/
def ackTask (s : Streams) (queue : String) (id : MessageId) : Streams where
  messages := s.messages.map (StreamMessage.ack queue id)
  queues := s.queues
  nextId := s.nextId
  groups := s.groups
  ordered := by
    rw [List.pairwise_map]
    simpa using s.ordered
  positive := by
    intro m hm
    obtain ⟨m', hm', rfl⟩ := List.mem_map.mp hm
    simpa using s.positive m' hm'
  below := by
    intro m hm
    obtain ⟨m', hm', rfl⟩ := List.mem_map.mp hm
    simpa using s.below m' hm'
  delivered := by
    intro m hm hclaim
    obtain ⟨m', hm', rfl⟩ := List.mem_map.mp hm
    simpa using s.delivered m' hm' (StreamMessage.claim_ack.mp hclaim).1
  ahead := s.ahead
  listed := by
    intro m hm
    obtain ⟨m', hm', rfl⟩ := List.mem_map.mp hm
    simpa using s.listed m' hm'
  scanned := s.scanned

/-- The message is pending, or it will still be delivered. -/
def live (s : Streams) (m : StreamMessage) : Bool :=
  m.claim.isSome || (m.present && s.lastDelivered m.queue < m.id)

/-- How many messages were added for the task. -/
def entries (s : Streams) (id : Uuid) : Nat := s.messages.countP (·.taskId = some id)

/-- How many messages of the task are live. -/
def liveEntries (s : Streams) (id : Uuid) : Nat :=
  s.messages.countP fun m => m.taskId = some id && s.live m

/-- The pending message with the id, added for the task. -/
def Holds (s : Streams) (queue : String) (id : MessageId) (taskId : Option Uuid) : Prop :=
  ∃ m ∈ s.messages, m.queue = queue ∧ m.id = id ∧ m.claim.isSome ∧ m.taskId = taskId

variable {s : Streams} {queue : String} {id : MessageId} {taskId τ : Uuid}

theorem isPending_iff : s.isPending queue id = true ↔ ∃ taskId, s.Holds queue id taskId := by
  simp only [isPending, List.any_eq_true, Bool.and_eq_true, decide_eq_true_eq, Holds]
  constructor
  · rintro ⟨m, hm, ⟨hqueue, hid⟩, hclaim⟩
    exact ⟨m.taskId, m, hm, hqueue, hid, hclaim, rfl⟩
  · rintro ⟨_, m, hm, hqueue, hid, hclaim, _⟩
    exact ⟨m, hm, ⟨hqueue, hid⟩, hclaim⟩

/-- Messages of one stream with the same id are the same. -/
theorem eq_of_id {m m' : StreamMessage} (hm : m ∈ s.messages) (hm' : m' ∈ s.messages)
    (hqueue : m.queue = m'.queue) (hid : m.id = m'.id) : m = m' := by
  obtain ⟨i, hi, rfl⟩ := List.getElem_of_mem hm
  obtain ⟨j, hj, rfl⟩ := List.getElem_of_mem hm'
  have hpair := List.pairwise_iff_getElem.mp s.ordered
  rcases Nat.lt_trichotomy i j with hlt | rfl | hlt
  · exact absurd hid (Nat.ne_of_lt (hpair i j hi hj hlt hqueue))
  · rfl
  · exact absurd hid.symm (Nat.ne_of_lt (hpair j i hj hi hlt hqueue.symm))

section AddTask

@[simp] theorem messages_addTask :
    (s.addTask queue taskId).messages = s.messages ++ [s.newMessage queue taskId] := rfl

@[simp] theorem lastDelivered_addTask (other : String) :
    (s.addTask queue taskId).lastDelivered other = s.lastDelivered other := by
  by_cases h : other = queue
  · subst h
    simp [lastDelivered, addTask]
  · simp [lastDelivered, addTask, Function.update_of_ne h]

/-- A stream that has a group keeps it as it is. -/
theorem groups_addTask (h : (s.groups queue).isSome) :
    (s.addTask queue taskId).groups = s.groups := by
  obtain ⟨last, hlast⟩ := Option.isSome_iff_exists.mp h
  change Function.update s.groups queue (some ((s.groups queue).getD 0)) = s.groups
  rw [hlast, Option.getD_some, ← hlast, Function.update_eq_self]

theorem live_addTask (m : StreamMessage) : (s.addTask queue taskId).live m = s.live m := by
  simp [live]

theorem live_newMessage : s.live (s.newMessage queue taskId) = true := by
  simp [live, newMessage, lastDelivered, s.ahead queue]

theorem entries_addTask :
    (s.addTask queue taskId).entries τ = s.entries τ + (decide (taskId = τ)).toNat := by
  rw [entries, messages_addTask, List.countP_append, entries]
  by_cases h : taskId = τ <;> simp [newMessage, h]

theorem liveEntries_addTask :
    (s.addTask queue taskId).liveEntries τ =
      s.liveEntries τ + (decide (taskId = τ)).toNat := by
  simp only [liveEntries, live_addTask, messages_addTask, List.countP_append]
  have hlive : s.live (s.newMessage queue taskId) = true := live_newMessage
  have htask : (s.newMessage queue taskId).taskId = some taskId := rfl
  by_cases h : taskId = τ
  · subst h
    simp [hlive, htask]
  · simp [htask, h]

theorem holds_addTask {other : String} {t : Option Uuid} :
    (s.addTask queue taskId).Holds other id t ↔ s.Holds other id t := by
  simp [Holds, newMessage]

theorem isPending_addTask (other : String) :
    (s.addTask queue taskId).isPending other id = s.isPending other id := by
  simp [isPending, newMessage]

end AddTask

section AckTask

@[simp] theorem groups_ackTask : (s.ackTask queue id).groups = s.groups := rfl

theorem entries_ackTask : (s.ackTask queue id).entries τ = s.entries τ := by
  simp [entries, ackTask, List.countP_map, Function.comp_def]

theorem holds_ackTask {other : String} {id' : MessageId} {t : Option Uuid} :
    (s.ackTask queue id).Holds other id' t ↔
      s.Holds other id' t ∧ ¬ (other = queue ∧ id' = id) := by
  constructor
  · rintro ⟨_, hm, hqueue, hid, hclaim, htask⟩
    obtain ⟨m, hm, rfl⟩ := List.mem_map.mp hm
    obtain ⟨hclaim, hnot⟩ := StreamMessage.claim_ack.mp hclaim
    simp only [StreamMessage.ack_queue, StreamMessage.ack_id, StreamMessage.ack_taskId] at *
    refine ⟨⟨m, ?_, hqueue, hid, hclaim, htask⟩, hqueue ▸ hid ▸ hnot⟩
    assumption
  · rintro ⟨⟨m, hm, rfl, rfl, hclaim, htask⟩, hnot⟩
    exact ⟨_, List.mem_map_of_mem hm, by simp, by simp, StreamMessage.claim_ack.mpr ⟨hclaim, hnot⟩,
      by simpa using htask⟩

/-- A pending message that is acknowledged is live no more. -/
theorem liveEntries_ackTask {t : Option Uuid} (h : s.Holds queue id t) :
    (s.ackTask queue id).liveEntries τ + (decide (t = some τ)).toNat = s.liveEntries τ := by
  obtain ⟨m, hm, hqueue, hid, hclaim, rfl⟩ := h
  obtain ⟨before, after, hsplit⟩ := List.append_of_mem hm
  -- the other messages stay as they are
  have hother : ∀ m' ∈ before ++ after, m'.ack queue id = m' := by
    intro m' hm'
    have hmem : m' ∈ s.messages := by
      rw [hsplit]
      rcases List.mem_append.mp hm' with h | h
      · exact List.mem_append_left _ h
      · exact List.mem_append_right _ (List.mem_cons_of_mem _ h)
    rw [StreamMessage.ack, if_neg]
    rintro ⟨hq, hi⟩
    obtain rfl := eq_of_id hmem hm (hq.trans hqueue.symm) (hi.trans hid.symm)
    have hordered := s.ordered
    rw [hsplit, List.pairwise_append, List.pairwise_cons] at hordered
    rcases List.mem_append.mp hm' with h | h
    · exact absurd (hordered.2.2 _ h _ List.mem_cons_self rfl) (Nat.lt_irrefl _)
    · exact absurd (hordered.2.1.1 _ h rfl) (Nat.lt_irrefl _)
  have hmap : (s.ackTask queue id).messages = before ++ m.ack queue id :: after := by
    have hbefore : before.map (StreamMessage.ack queue id) = before :=
      List.map_congr_left (fun m' hm' => hother m' (List.mem_append_left _ hm')) |>.trans
        (List.map_id _)
    have hafter : after.map (StreamMessage.ack queue id) = after :=
      List.map_congr_left (fun m' hm' => hother m' (List.mem_append_right _ hm')) |>.trans
        (List.map_id _)
    change s.messages.map (StreamMessage.ack queue id) = _
    rw [hsplit, List.map_append, List.map_cons, hbefore, hafter]
  have hgone : s.live (m.ack queue id) = false := by
    have hle : m.id ≤ s.lastDelivered m.queue := s.delivered m hm hclaim
    have hack : m.ack queue id = { m with claim := none } := if_pos ⟨hqueue, hid⟩
    rw [hack]
    simp [live, hle]
  have hlive : s.live m = true := by simp [live, hclaim]
  have hsame : (s.ackTask queue id).live = s.live := rfl
  simp only [liveEntries, hmap, hsame, hsplit, List.countP_append, List.countP_cons, hgone, hlive]
  by_cases htask : m.taskId = some τ
  · simp [htask]
    omega
  · simp [htask]

end AckTask

section Pending

/-- A pending entry comes from a message that is held. -/
theorem holds_of_getPending {e : PendingTask} (h : e ∈ s.getPending queue) :
    ∃ t, s.Holds queue e.messageId t ∧ ∀ τ, e.taskId = some τ → t = some τ := by
  obtain ⟨m, hm, hpending⟩ := List.mem_filterMap.mp (List.mem_of_mem_take h)
  obtain ⟨hmem, hqueue⟩ := List.mem_filter.mp hm
  obtain ⟨claim, hclaim, rfl⟩ := Option.map_eq_some_iff.mp hpending
  refine ⟨m.taskId, ⟨m, hmem, by simpa using hqueue, rfl, by simp [hclaim], rfl⟩, ?_⟩
  intro τ hτ
  by_cases hpresent : m.present <;> simp [hpresent] at hτ
  exact hτ

theorem ordered_getPending :
    ((s.getPending queue).map (·.messageId)).Pairwise (· < ·) := by
  have hqueue : (s.messages.filter (·.queue = queue)).Pairwise fun m m' => m.id < m'.id := by
    have hsub := s.ordered.sublist (List.filter_sublist (p := (·.queue = queue)))
    refine hsub.imp_of_mem ?_
    intro m m' hm hm' h
    exact h ((by simpa using (List.mem_filter.mp hm).2 : m.queue = queue).trans
      (by simpa using (List.mem_filter.mp hm').2 : m'.queue = queue).symm)
  rw [List.pairwise_map]
  refine (List.Pairwise.filterMap _ ?_ hqueue).sublist (List.take_sublist _ _)
  intro m m' hlt e he e' he'
  obtain ⟨_, _, rfl⟩ := Option.map_eq_some_iff.mp he
  obtain ⟨_, _, rfl⟩ := Option.map_eq_some_iff.mp he'
  exact hlt

end Pending

end Streams

end Dalston.Reconciler
