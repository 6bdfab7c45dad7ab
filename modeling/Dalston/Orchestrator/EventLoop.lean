import Dalston.Orchestrator.Permits

/-!
# The event loop

A message of the durable stream stays pending until a handler has returned for
it. The process of the loop can die at any point of a handler.
-/

namespace Dalston.Orchestrator

open Foundation Model

/-- A cut of the processing is a cut of the handler, or the end with an acknowledgement. -/
theorem cuts_processDurableEvent {env : Env} {m : Message} {s s' : World}
    (h : s' ∈ (processDurableEvent env m).cuts s) :
    s' ∈ (dispatch env m.event).cuts s ∨
      ((dispatch env m.event).run s).1 = .returned ∧
        s' = (Effect.ackEvent m.id).apply ((dispatch env m.event).run s).2 := by
  rcases Program.mem_cuts_bind.mp h with h | h
  · exact Or.inl h
  · have hend := Program.run_mem_cuts (dispatch env m.event) s
    rcases houtcome : ((dispatch env m.event).run s).1 with _ | _
    · rw [houtcome] at h
      rcases List.mem_cons.mp h with rfl | h
      · exact Or.inl hend
      · exact Or.inr ⟨rfl, List.mem_singleton.mp h⟩
    · rw [houtcome] at h
      rw [List.mem_singleton.mp h]
      exact Or.inl hend

/-- The pending messages have ids of their own, all of them handed out. -/
structure Mailbox (s : World) : Prop where
  unique : (s.pending.map (·.id)).Nodup
  below : ∀ m ∈ s.pending, m.id < s.nextEventId

theorem Mailbox.apply {s : World} (h : Mailbox s) (e : Effect) : Mailbox (e.apply s) := by
  cases e with
  | publish event =>
      constructor
      · simp only [Effect.apply, List.map_append, List.map_cons, List.map_nil]
        refine List.Nodup.append h.unique (List.nodup_singleton _) ?_
        intro id hid hnew
        obtain ⟨m, hm, rfl⟩ := List.mem_map.mp hid
        have hlt := h.below m hm
        rw [List.mem_singleton] at hnew
        omega
      · intro m hm
        have hnext : ((Effect.publish event).apply s).nextEventId = s.nextEventId + 1 := rfl
        rcases List.mem_append.mp hm with hm | hm
        · have hlt := h.below m hm
          omega
        · rw [List.mem_singleton.mp hm]
          exact Nat.lt_succ_self _
  | ackEvent messageId =>
      constructor
      · exact h.unique.sublist (List.Sublist.map _ List.filter_sublist)
      · intro m hm
        exact h.below m (List.mem_of_mem_filter hm)
  | saveTasks tasks now =>
      simp only [Effect.apply]
      split <;> exact ⟨h.unique, h.below⟩
  | saveEnrichmentTasks tasks =>
      simp only [Effect.apply]
      split <;> exact ⟨h.unique, h.below⟩
  | addTaskOnce queueId taskId retries =>
      simp only [Effect.apply]
      split <;> exact ⟨h.unique, h.below⟩
  | _ => exact ⟨h.unique, h.below⟩

theorem Mailbox.eq_of_id {s : World} (h : Mailbox s) {m m' : Message} (hm : m ∈ s.pending)
    (hm' : m' ∈ s.pending) (hid : m.id = m'.id) : m = m' :=
  List.inj_on_of_nodup_map h.unique hm hm' hid

/-- Only an acknowledgement takes a message away. -/
theorem pending_apply {s : World} {m : Message} (hm : m ∈ s.pending) {e : Effect}
    (he : ∀ messageId, e ≠ .ackEvent messageId) : m ∈ (e.apply s).pending := by
  cases e with
  | publish event => exact List.mem_append_left _ hm
  | ackEvent messageId => exact absurd rfl (he messageId)
  | saveTasks tasks now =>
      simp only [Effect.apply]
      split <;> exact hm
  | saveEnrichmentTasks tasks =>
      simp only [Effect.apply]
      split <;> exact hm
  | addTaskOnce queueId taskId retries =>
      simp only [Effect.apply]
      split <;> exact hm
  | _ => exact hm

/-- A handler acknowledges nothing itself. -/
theorem not_ack_of_permits {env : Env} {b : Branch} {s s₁ : World} {e : Effect}
    (h : Permits env b s s₁ e) (messageId : Nat) : e ≠ .ackEvent messageId := by
  rintro rfl
  exact h

end Dalston.Orchestrator
