import Dalston.Reconciler.Sweeper

/-!
# Running tasks without a pending message

The pass fails a running task only if it sees no pending message of the task and
the object store has no output of it. It sees the first pending messages of each
stream that still have their bodies; a task whose message is pending behind these
looks like an orphan.
-/

namespace Dalston.Reconciler

open Foundation Model

/-- A message of the task is in a pending list. -/
def Pending (s : Streams) (taskId : Uuid) : Prop := ∃ queue id, s.Holds queue id (some taskId)

/-- A message of the task is among the first pending messages of its stream, with its body. -/
def Visible (s : Streams) (taskId : Uuid) : Prop :=
  ∃ queue, ∃ m ∈ List.take Streams.pendingLimit
    (s.messages.filter fun m => m.queue = queue && m.claim.isSome),
    m.present = true ∧ m.taskId = some taskId

/-- The task started before the orphan threshold. -/
def RunsLong (env : Env) (t : TaskRow) : Prop :=
  ∃ time, t.startedAt = some time ∧ time + ORPHAN_THRESHOLD_SECONDS < env.now

section Steps

variable {env : Env} {s : Store} {pending : Snapshot}

theorem tasks_ackEntry (stage : String) (taskId : Uuid) :
    (ackEntry s stage taskId).tasks = s.tasks := by
  rw [ackEntry]
  split <;> rfl

theorem tasks_ackIfEnded (x : String × Uuid) : (ackIfEnded s x).tasks = s.tasks := by
  rw [ackIfEnded]
  split
  · exact tasks_ackEntry _ _
  · rfl

theorem tasks_requeueIfStale (x : String × PendingTask) :
    (requeueIfStale env s x).tasks = s.tasks := by
  rw [requeueIfStale]
  split
  · rw [requeueEntry]
    split <;> rfl
  · rfl

theorem tasks_requeueNamed (t : TaskRow) (queueId : String) :
    (requeueNamed s t queueId).tasks = s.tasks := by
  simp only [requeueNamed]
  split <;> rfl

theorem tasks_requeueIfConsumed (t : TaskRow) : (requeueIfConsumed env s t).tasks = s.tasks := by
  rw [requeueIfConsumed]
  split
  · rfl
  · exact tasks_requeueNamed t _

/-- A fold of steps that leave the rows alone leaves them alone. -/
theorem tasks_foldl {A : Type} {f : Store → A → Store} (h : ∀ s a, (f s a).tasks = s.tasks)
    (as : List A) (s : Store) : (as.foldl f s).tasks = s.tasks := by
  induction as generalizing s with
  | nil => rfl
  | cons a rest ih => exact (ih (f s a)).trans (h s a)

theorem tasks_reconcileOrphanedPelEntries :
    (reconcileOrphanedPelEntries pending s).tasks = s.tasks :=
  tasks_foldl (fun _ => tasks_ackIfEnded) _ s

theorem tasks_reconcileStaleReadyTasks :
    (reconcileStaleReadyTasks env pending s).tasks = s.tasks :=
  tasks_foldl (fun _ => tasks_requeueIfStale) _ s

theorem tasks_reconcileConsumedMessages : (reconcileConsumedMessages env s).tasks = s.tasks :=
  tasks_foldl (fun _ => tasks_requeueIfConsumed) _ s

theorem tasks_startPostProcessing (p : PostProcessing) :
    ∃ new, (startPostProcessing s p).tasks = s.tasks ++ new := by
  rw [startPostProcessing]
  split
  · cases p.queueId with
    | none => exact ⟨_, rfl⟩
    | some queueId => exact ⟨_, rfl⟩
  · exact ⟨[], (List.append_nil _).symm⟩

/-- Completing stuck jobs only adds rows. -/
theorem tasks_reconcileStuckJobs (env : Env) (s : Store) :
    ∃ new, (reconcileStuckJobs env s).tasks = s.tasks ++ new := by
  rw [reconcileStuckJobs]
  generalize env.postProcessing = ps
  induction ps generalizing s with
  | nil => exact ⟨[], (List.append_nil _).symm⟩
  | cons p rest ih =>
      obtain ⟨new, hnew⟩ := tasks_startPostProcessing (s := s) p
      obtain ⟨more, hmore⟩ := ih (s := startPostProcessing s p)
      exact ⟨new ++ more, by rw [List.foldl_cons, hmore, hnew, List.append_assoc]⟩

end Steps

section Rows

variable {env : Env} {s : Store} {t t' : TaskRow}

/-- The rows after the pass are the settled old ones, and new ones. -/
theorem tasks_reconcile (env : Env) (s : Store) : ∃ new, (reconcile env s).tasks =
    s.tasks.map (settleOrphan env (pelTaskIds (snapshot s.streams))) ++ new := by
  obtain ⟨new, hnew⟩ := tasks_reconcileStuckJobs env _
  refine ⟨new, hnew.trans ?_⟩
  rw [tasks_reconcileConsumedMessages, tasks_reconcileStaleReadyTasks,
    tasks_reconcileOrphanedPelEntries]
  rfl

theorem settled_mem_reconcile (ht : t ∈ s.tasks) :
    settleOrphan env (pelTaskIds (snapshot s.streams)) t ∈ (reconcile env s).tasks := by
  obtain ⟨new, hnew⟩ := tasks_reconcile env s
  rw [hnew]
  exact List.mem_append_left _ (List.mem_map_of_mem ht)

/-- The row of an old task is its settled row. -/
theorem eq_settled (ht : t ∈ s.tasks) (ht' : t' ∈ (reconcile env s).tasks) (hid : t'.id = t.id) :
    t' = settleOrphan env (pelTaskIds (snapshot s.streams)) t :=
  List.inj_on_of_nodup_map (reconcile env s).uniqueId ht' (settled_mem_reconcile ht)
    (hid.trans settleOrphan_id.symm)

end Rows

section Visible

variable {s : Streams} {taskId : Uuid}

/-- The pending entries of a queue are those of its first pending messages. -/
theorem getPending_eq (queue : String) : s.getPending queue =
    (List.take Streams.pendingLimit
      (s.messages.filter fun m => m.queue = queue && m.claim.isSome)).filterMap
        StreamMessage.pendingTask? := by
  have htake : ∀ (ms : List StreamMessage) (n : Nat),
      (ms.filterMap StreamMessage.pendingTask?).take n =
        ((ms.filter (·.claim.isSome)).take n).filterMap StreamMessage.pendingTask? := by
    intro ms
    induction ms with
    | nil => simp
    | cons m rest ih =>
        intro n
        rcases hclaim : m.claim with _ | claim
        · simp [StreamMessage.pendingTask?, hclaim, ih]
        · cases n with
          | zero => simp
          | succ n => simp [StreamMessage.pendingTask?, hclaim, ih]
  rw [Streams.getPending, htake, List.filter_filter]
  simp only [Bool.and_comm]

theorem mem_pelTaskIds : taskId ∈ pelTaskIds (snapshot s) ↔ Visible s taskId := by
  simp only [pelTaskIds, snapshot, List.mem_flatMap, List.mem_map, List.mem_filterMap,
    exists_exists_and_eq_and, getPending_eq, Visible]
  constructor
  · rintro ⟨queue, _, e, ⟨m, hm, hpending⟩, htask⟩
    obtain ⟨claim, _, rfl⟩ := Option.map_eq_some_iff.mp hpending
    refine ⟨queue, m, hm, ?_⟩
    by_cases hpresent : m.present <;> simp [hpresent] at htask
    exact ⟨hpresent, htask⟩
  · rintro ⟨queue, m, hm, hpresent, htask⟩
    have hmem := List.mem_filter.mp (List.mem_of_mem_take hm)
    obtain ⟨hqueue, hclaim⟩ : m.queue = queue ∧ m.claim.isSome = true := by simpa using hmem.2
    obtain ⟨claim, hclaim⟩ := Option.isSome_iff_exists.mp hclaim
    have hentry : m.pendingTask? =
        some ⟨m.id, m.taskId, claim.consumer, claim.idleMs, claim.deliveryCount⟩ := by
      simp [StreamMessage.pendingTask?, hclaim, hpresent]
    exact ⟨queue, hqueue ▸ s.listed m hmem.1, _, ⟨m, hm, hentry⟩, htask⟩

end Visible

/-- A running task fails when it runs long, is seen nowhere and has no output. -/
theorem settled_failed_iff {env : Env} {s : Streams} {t : TaskRow} (hrunning : t.status = .running) :
    (settleOrphan env (pelTaskIds (snapshot s)) t).status = .failed ↔
      RunsLong env t ∧ ¬ Visible s t.id ∧ env.outputExists t.jobId t.id = some false := by
  have hlong : (t.startedAt.any fun time => time + ORPHAN_THRESHOLD_SECONDS < env.now) = true ↔
      RunsLong env t := by
    rw [RunsLong]
    cases t.startedAt <;> simp
  have horphaned : orphaned env (pelTaskIds (snapshot s)) t = true ↔
      RunsLong env t ∧ ¬ Visible s t.id := by
    simp only [orphaned, hrunning, Bool.and_eq_true, decide_eq_true_eq, hlong, mem_pelTaskIds,
      true_and]
  rw [settleOrphan]
  split
  · rename_i h
    have hseen := horphaned.mp h
    split <;> simp_all
  · rename_i h
    have hseen := mt horphaned.mpr h
    simp only [hrunning, reduceCtorEq, false_iff]
    tauto

/-- No running task with a pending message fails, if and only if every such task that runs
long is seen or has an output. -/
theorem pending_not_failed_iff (env : Env) (s : Store) :
    (∀ t ∈ s.tasks, t.status = .running → Pending s.streams t.id →
      ∀ t' ∈ (reconcile env s).tasks, t'.id = t.id → t'.status ≠ .failed) ↔
    ∀ t ∈ s.tasks, t.status = .running → Pending s.streams t.id →
      RunsLong env t → Visible s.streams t.id ∨ env.outputExists t.jobId t.id ≠ some false := by
  constructor
  · intro h t ht hrunning hpending hlong
    have hnot := h t ht hrunning hpending _ (settled_mem_reconcile ht) settleOrphan_id
    rw [Ne, settled_failed_iff hrunning] at hnot
    tauto
  · intro h t ht hrunning hpending t' ht' hid
    obtain rfl := eq_settled ht ht' hid
    rw [Ne, settled_failed_iff hrunning]
    rintro ⟨hlong, hunseen, houtput⟩
    rcases h t ht hrunning hpending hlong with hseen | hout
    · exact hunseen hseen
    · exact hout houtput

/-- A stream whose messages are all pending; each was added for the task of its number. -/
def crowded (n : Nat) : Streams where
  messages := (List.range n).map fun i =>
    ⟨"transcribe", i + 1, some i, true, some ⟨"engine", 0, 1⟩⟩
  queues := ["transcribe"]
  nextId := fun _ => n + 1
  groups := fun _ => some n
  ordered := by
    rw [List.pairwise_map]
    refine List.pairwise_lt_range.imp ?_
    intro i j hij _
    exact Nat.succ_lt_succ hij
  positive := by simp
  below := by simp
  delivered := by
    simp only [List.mem_map, List.mem_range]
    rintro _ ⟨i, hi, rfl⟩ _
    exact hi
  ahead := by simp
  listed := by simp
  scanned := by simp

/-- The task of the message behind the limit runs; its output is not there yet. -/
def crowdedStore : Store where
  tasks := [⟨1000, 0, "transcribe", "engine", .running, none, some 0, none⟩]
  uniqueId := by simp
  streams := crowded 1001
  metadata := fun _ => none
  published := []

def sampleEnv : Env where
  now := 3600
  outputExists := fun _ _ => some false
  instances := fun _ => none
  postProcessing := []

/-- A running task fails when its message is pending behind a thousand others. -/
theorem pending_task_fails :
    ¬ ∀ (env : Env) (s : Store), ∀ t ∈ s.tasks, t.status = .running → Pending s.streams t.id →
      ∀ t' ∈ (reconcile env s).tasks, t'.id = t.id → t'.status ≠ .failed := by
  intro hclaim
  have hpending : Pending (crowded 1001) 1000 := by
    refine ⟨"transcribe", 1001, ⟨"transcribe", 1001, some 1000, true, some ⟨"engine", 0, 1⟩⟩, ?_⟩
    simp [crowded]
  have hunseen : 1000 ∉ pelTaskIds (snapshot (crowded 1001)) := by
    decide +kernel
  refine hclaim sampleEnv crowdedStore _ List.mem_cons_self rfl hpending _
    (settled_mem_reconcile List.mem_cons_self) settleOrphan_id ?_
  rw [settled_failed_iff rfl]
  refine ⟨⟨0, rfl, by decide⟩, ?_, rfl⟩
  rw [← mem_pelTaskIds]
  exact hunseen

end Dalston.Reconciler
