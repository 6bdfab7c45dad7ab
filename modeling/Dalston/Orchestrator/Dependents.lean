import Dalston.Orchestrator.Deliveries

/-!
# Dependents of settled tasks

When a task is completed or skipped, the pending tasks that have waited for it
should be queued. The handler looks for pending tasks whose dependencies are
all completed, so a task that depends on a skipped one is never found; and the
first engine error ends the loop, the task that met it being ready but not
queued. A handler that meets neither leaves no task behind.
-/

namespace Dalston.Orchestrator

open Foundation Model

/-- A task with the id is completed or skipped. -/
def Done (s : World) (id : Uuid) : Prop :=
  ∃ t ∈ s.tasks.rows, t.id = id ∧ (t.status = .completed ∨ t.status = .skipped)

instance (s : World) (id : Uuid) : Decidable (Done s id) :=
  inferInstanceAs (Decidable (∃ t ∈ s.tasks.rows, _))

/-- A task with the id is completed or skipped once the branch has marked its own task. -/
def Settles (b : Branch) (s : World) (id : Uuid) : Prop :=
  ∃ t ∈ s.tasks.rows, t.id = id ∧ (settledRow b t = .completed ∨ settledRow b t = .skipped)

/-- The task is pending, and the branch has settled the last of its dependencies. -/
structure Unblocks (b : Branch) (s : World) (t : TaskModel) : Prop where
  mem : t ∈ s.tasks.rows
  pending : settledRow b t = .pending
  settled : ∀ id ∈ t.dependencies, Settles b s id

/-- A live stream entry has been added for the task. -/
def Queued (s s' : World) (id : Uuid) : Prop :=
  ∃ entry ∈ s'.stream.drop s.stream.length, entry.taskId = id ∧ entry.live

/-- Every task that was unblocked is ready and queued, or cancelled with its job, and no
task stays pending whose dependencies are all completed or skipped. -/
structure LeavesNoneBehind (b : Branch) (s s' : World) : Prop where
  queued : ∀ t, Unblocks b s t → ∃ u ∈ s'.tasks.rows, u.id = t.id ∧
    (u.status = .ready ∧ Queued s s' t.id ∨
      s.job.status = .cancelling ∧ u.status = .cancelled)
  rest : ∀ u ∈ s'.tasks.rows, u.status = .pending → ¬ ∀ id ∈ u.dependencies, Done s' id

/-- Every unblocked task depends on completed tasks only and finds its engine. -/
def FindsAll (env : Env) (b : Branch) (s : World) : Prop :=
  s.job.status ≠ .cancelling → ∀ t, Unblocks b s t →
    (∀ id ∈ t.dependencies, settledCompleted b s id) ∧
      engineFails env (Task.modelValidate t) = false

/-- The loop over the dependents queues the task. -/
abbrev IsReady (tasks : List TaskModel) (t : TaskModel) : Prop :=
  t.status = .pending ∧ depsMet tasks t

def readyIds (tasks rest : List TaskModel) : List Uuid :=
  (rest.filter fun t => IsReady tasks t).map (·.id)

theorem mem_readyIds {tasks rest : List TaskModel} {id : Uuid} :
    id ∈ readyIds tasks rest ↔ ∃ t ∈ rest, IsReady tasks t ∧ t.id = id := by
  simp [readyIds, and_assoc]

theorem readyIds_cons (tasks : List TaskModel) (t : TaskModel) (rest : List TaskModel) :
    readyIds tasks (t :: rest) =
      if IsReady tasks t then t.id :: readyIds tasks rest else readyIds tasks rest := by
  unfold readyIds
  rw [List.filter_cons]
  split <;> simp_all

/-- A row after the tasks of the given ids have been claimed. -/
def claimed (now : Time) (ids : List Uuid) (t : TaskModel) : TaskModel :=
  if t.id ∈ ids then { t with status := .ready, readyAt := some now } else t

theorem declared_claimed (now : Time) (ids : List Uuid) (t : TaskModel) :
    (claimed now ids t).declared = t.declared := by
  unfold claimed
  split <;> rfl

@[simp] theorem claimed_nil (now : Time) : claimed now [] = id := by
  funext t
  simp [claimed]

/-- The loop has claimed the tasks of `ids` and queued the tasks of `queued`. -/
structure Progress (env : Env) (s₁ : World) (ids queued : List Uuid) (s : World) : Prop where
  job : s.job.status = s₁.job.status
  rows : s.tasks.rows = s₁.tasks.rows.map (claimed env.now ids)
  stream : s₁.stream <+: s.stream
  entries : ∀ id, Queued s₁ s id ↔ id ∈ queued

section Queue

/-- What queueing a task has done: an entry is added, or an error says why there is none. -/
def QueueEnds (env : Env) (task : Task) (s : World) (r : Except QueueError Unit) (s' : World) :
    Prop :=
  SameRows s s' ∧
    ((r = .ok () ∧ accepts env task ∧
        ∃ entry, s'.stream = s.stream ++ [entry] ∧ entry.taskId = task.id ∧ entry.live) ∨
      (s'.stream = s.stream ∧ ∃ e, r = .error e ∧
        ∀ detail, e = .engine detail → engineFails env task))

theorem wp_queueTask_ends (env : Env) (task : Task) (responses : Config) (s : World) :
    (queueTask env task responses none none).wp (fun _ _ => True) (QueueEnds env task s) s := by
  simp only [queueTask]
  rcases hc : checkEngine env (withBindings task) with error | waiting
  · refine ⟨SameRows.refl s, Or.inr ⟨rfl, error, rfl, ?_⟩⟩
    rintro detail rfl
    simp [engineFails, hc]
  · have haccepts : accepts env task := by simp [accepts, hc]
    have hdispatch : ∀ request s₁, SameRows s s₁ → s₁.stream = s.stream →
        (dispatchRequest (withBindings task) none request).wp (fun _ _ => True)
          (QueueEnds env task s) s₁ := by
      intro request s₁ hrows hstream
      cases request with
      | none => exact ⟨hrows, Or.inr ⟨hstream, .other, rfl, by simp⟩⟩
      | some request =>
          refine ⟨trivial, trivial, trivial, trivial, hrows, Or.inl ⟨rfl, haccepts, ?_⟩⟩
          exact ⟨_, congrArg (· ++ _) hstream, withBindings_id task, rfl⟩
    cases waiting
    · exact ⟨trivial, trivial, hdispatch _ _ ⟨rfl, rfl⟩ rfl⟩
    · exact ⟨trivial, trivial, trivial, trivial, hdispatch _ _ ⟨rfl, rfl⟩ rfl⟩

theorem engineFails_of_accepts {env : Env} {task : Task} (h : accepts env task) :
    engineFails env task = false := by
  unfold accepts at h
  unfold engineFails
  split at h
  · rename_i hc
    rw [hc]
  · cases h

theorem queued_append {s₁ s s' : World} {entry : StreamEntry} (hp : s₁.stream <+: s.stream)
    (h : s'.stream = s.stream ++ [entry]) (hlive : entry.live) (id : Uuid) :
    Queued s₁ s' id ↔ Queued s₁ s id ∨ entry.taskId = id := by
  simp only [Queued, h, List.drop_append_of_le_length hp.length_le, List.mem_append,
    List.mem_singleton]
  constructor
  · rintro ⟨x, hx | rfl, hid, hx'⟩
    · exact Or.inl ⟨x, hx, hid, hx'⟩
    · exact Or.inr hid
  · rintro (⟨x, hx, hid, hx'⟩ | hid)
    · exact ⟨x, Or.inl hx, hid, hx'⟩
    · exact ⟨entry, Or.inr rfl, hid, hlive⟩

end Queue

section Loop

variable {env : Env} {s₁ : World}

/-- Claiming one more pending task of the loop. -/
theorem Progress.claim {ids : List Uuid} {s : World} (hs : Progress env s₁ ids ids s)
    {task : TaskModel} (hmem : task ∈ s₁.tasks.rows) (hpending : task.status = .pending)
    (hfresh : task.id ∉ ids) :
    claimable s task.id ∧
      Progress env s₁ (ids ++ [task.id]) ids ((Effect.claimReady task.id env.now).apply s) := by
  have hmem' : task ∈ s.tasks.rows := by
    rw [hs.rows]
    exact List.mem_map.mpr ⟨task, hmem, by simp [claimed, hfresh]⟩
  constructor
  · simp [claimable, TaskTable.get?_self hmem', hpending]
  · refine ⟨hs.job, ?_, hs.stream, hs.entries⟩
    rw [Effect.rows_apply, hs.rows, List.map_map]
    simp only [Effect.newRows, List.append_nil]
    refine List.map_congr_left fun t ht => ?_
    by_cases hold : t.id ∈ ids
    · have hne : t.id ≠ task.id := fun h => hfresh (h ▸ hold)
      simp [claimed, Effect.updateRow, hold, hne]
    · by_cases hid : t.id = task.id
      · obtain rfl := TaskTable.eq_of_id ht hmem hid
        simp [claimed, Effect.updateRow, hold, hpending]
      · simp [claimed, Effect.updateRow, hold, hid]

/-- Where the loop over the dependents ends: every ready task is queued, or a task that is
claimed but not queued has met an engine error. -/
def LoopEnds (env : Env) (s₁ : World) (rest : List TaskModel) (ids : List Uuid)
    (r : Except QueueError Unit) (s' : World) : Prop :=
  match r with
  | .ok () =>
      Progress env s₁ (ids ++ readyIds s₁.tasks.rows rest) (ids ++ readyIds s₁.tasks.rows rest) s' ∧
        ∀ t ∈ rest, IsReady s₁.tasks.rows t → engineFails env (Task.modelValidate t) = false
  | .error (.engine _) =>
      ∃ t ∈ rest, IsReady s₁.tasks.rows t ∧ engineFails env (Task.modelValidate t) ∧
        ∃ queued, t.id ∉ queued ∧ (∀ id ∈ queued, id ∈ ids ∨ id ∈ readyIds s₁.tasks.rows rest) ∧
          Progress env s₁ (queued ++ [t.id]) queued s'
  | .error .other => True

theorem LoopEnds.skip {task : TaskModel} {rest : List TaskModel} {ids : List Uuid}
    {r : Except QueueError Unit} {s' : World} (h : LoopEnds env s₁ rest ids r s')
    (hready : ¬ IsReady s₁.tasks.rows task) : LoopEnds env s₁ (task :: rest) ids r s' := by
  have hids : readyIds s₁.tasks.rows (task :: rest) = readyIds s₁.tasks.rows rest := by
    rw [readyIds_cons, if_neg hready]
  rcases r with (detail | _) | _
  · obtain ⟨t, ht, h⟩ := h
    refine ⟨t, List.mem_cons_of_mem _ ht, ?_⟩
    rwa [hids]
  · trivial
  · refine ⟨hids ▸ h.1, fun t ht hready' => ?_⟩
    rcases List.mem_cons.mp ht with rfl | ht
    · exact absurd hready' hready
    · exact h.2 t ht hready'

theorem LoopEnds.next {task : TaskModel} {rest : List TaskModel} {ids : List Uuid}
    {r : Except QueueError Unit} {s' : World} (h : LoopEnds env s₁ rest (ids ++ [task.id]) r s')
    (hready : IsReady s₁.tasks.rows task)
    (hfind : engineFails env (Task.modelValidate task) = false) :
    LoopEnds env s₁ (task :: rest) ids r s' := by
  have hids : readyIds s₁.tasks.rows (task :: rest) = task.id :: readyIds s₁.tasks.rows rest := by
    rw [readyIds_cons, if_pos hready]
  rcases r with (detail | _) | _
  · obtain ⟨t, ht, hready', hfails, queued, hfresh, hqueued, hprogress⟩ := h
    refine ⟨t, List.mem_cons_of_mem _ ht, hready', hfails, queued, hfresh, fun id hid => ?_,
      hprogress⟩
    rw [hids, List.mem_cons]
    have h := hqueued id hid
    simp only [List.mem_append, List.mem_singleton] at h
    exact or_assoc.mp h
  · trivial
  · obtain ⟨hprogress, hfinds⟩ := h
    rw [List.append_assoc, List.singleton_append, ← hids] at hprogress
    refine ⟨hprogress, fun t ht hready' => ?_⟩
    rcases List.mem_cons.mp ht with rfl | ht
    · exact hfind
    · exact hfinds t ht hready'

theorem wp_scheduleDependents_ends (rest : List TaskModel) (ids : List Uuid) (s : World)
    (hrest : ∀ t ∈ rest, t ∈ s₁.tasks.rows ∧ t.id ∉ ids) (hnodup : (rest.map (·.id)).Nodup)
    (hs : Progress env s₁ ids ids s) :
    (scheduleDependents env s₁.tasks.rows rest).wp (fun _ _ => True)
      (LoopEnds env s₁ rest ids) s := by
  induction rest generalizing ids s with
  | nil =>
      simp only [scheduleDependents, Program.pure_eq, Program.wp_done]
      exact ⟨by simpa [readyIds] using hs, by simp⟩
  | cons task rest ih =>
      obtain ⟨hmem, hfresh⟩ := hrest task (by simp)
      obtain ⟨htask, hnodup⟩ := List.nodup_cons.mp hnodup
      rw [scheduleDependents]
      by_cases hready : IsReady s₁.tasks.rows task
      swap
      · rw [if_neg hready]
        have hskip := ih ids s (fun t ht => hrest t (by simp [ht])) hnodup hs
        exact Program.wp_post hskip fun r s' h => h.skip hready
      rw [if_pos hready]
      obtain ⟨hclaim, hclaimed⟩ := hs.claim hmem hready.1 hfresh
      simp only [scheduleDependent, Program.wp_bind, Program.wp_perform, hclaim, if_true,
        wp_getWorld]
      refine ⟨trivial, trivial, ?_⟩
      refine Program.wp_post (wp_queueTask_ends env _ _ _) fun r s₂ hend => ?_
      obtain ⟨hrows, hend⟩ := hend
      have hengine : engineFails env (Task.modelValidate
          { task with status := .ready, readyAt := some env.now }) =
            engineFails env (Task.modelValidate task) := engineFails_of_declared rfl
      have hjob : s₂.job.status = s₁.job.status :=
        (congrArg JobModel.status hrows.1).trans hs.job
      have hrows₂ : s₂.tasks.rows = s₁.tasks.rows.map (claimed env.now (ids ++ [task.id])) := by
        rw [hrows.2]
        exact hclaimed.rows
      rcases hend with ⟨rfl, haccepts, entry, hstream, hid, hlive⟩ | ⟨hstream, error, rfl, herror⟩
      · have hs₂ : Progress env s₁ (ids ++ [task.id]) (ids ++ [task.id]) s₂ := by
          refine ⟨hjob, hrows₂, ?_, fun id => ?_⟩
          · rw [hstream]
            exact hclaimed.stream.trans (List.prefix_append _ _)
          · rw [queued_append hclaimed.stream hstream hlive, hclaimed.entries, hid]
            simp [Task.modelValidate, eq_comm]
        refine Program.wp_post (ih (ids ++ [task.id]) s₂ ?_ hnodup hs₂) fun r s' h =>
          h.next hready (hengine ▸ engineFails_of_accepts haccepts)
        intro t ht
        obtain ⟨ht₁, hfresh'⟩ := hrest t (by simp [ht])
        have hne : t.id ≠ task.id := fun h => htask (List.mem_map.mpr ⟨t, ht, h⟩)
        exact ⟨ht₁, by simp [hfresh', hne]⟩
      · rcases error with detail | _
        swap
        · trivial
        refine ⟨task, List.mem_cons_self, hready, hengine ▸ herror detail rfl, ids, hfresh,
          fun _ => Or.inl, hjob, hrows₂, ?_, fun id => ?_⟩
        · rw [hstream]
          exact hclaimed.stream
        · rw [← hclaimed.entries]
          simp only [Queued, hstream, apply_eq]

end Loop

section Completion

/-- The rows and the streams have only grown, and no new task waits for settled tasks only. -/
structure Extends (s s' : World) : Prop where
  rows : ∃ new, s'.tasks.rows = s.tasks.rows ++ new ∧
    ∀ u ∈ new, (u.status = .ready ∨ u.status = .pending) ∧
      (u.status = .pending → ∃ v ∈ new, v.id ∈ u.dependencies)
  stream : s.stream <+: s'.stream

theorem Extends.refl (s : World) : Extends s s := ⟨⟨[], by simp⟩, List.prefix_rfl⟩

/-- The stores that the dependents' loop writes are left alone. -/
def SameTasks (s s' : World) : Prop := s'.tasks = s.tasks ∧ s'.stream = s.stream

theorem SameTasks.extends {s s' : World} (h : SameTasks s s') : Extends s s' := by
  refine ⟨⟨[], by simp [h.1]⟩, ?_⟩
  rw [h.2]

theorem wp_announceEnd_sameTasks (event : Event) (s : World) :
    (announceEnd event).wp (fun _ _ => True) (fun _ s' => SameTasks s s') s := by
  have h := Program.wp_keeps (I := SameTasks s) (wp_announceEnd event s) ⟨rfl, rfl⟩
    fun s₁ e hs he => by cases e <;> first | exact hs | exact he.elim
  exact Program.wp_mono h (fun _ _ _ => trivial) fun _ _ h => h.1

variable {env : Env}

/-- The enrichment tasks, once the first of them is marked as ready. -/
def enrichmentRows (env : Env) (job : JobModel) : List TaskModel :=
  ((buildPostProcessingTasks env job).map (Task.toModel "input_bindings")).map
    (Effect.markReady env.piiDetectId none).updateRow

theorem enrichmentRows_wait (env : Env) (job : JobModel) :
    ∀ u ∈ enrichmentRows env job, (u.status = .ready ∨ u.status = .pending) ∧
      (u.status = .pending → ∃ v ∈ enrichmentRows env job, v.id ∈ u.dependencies) := by
  have hfirst : (Effect.markReady env.piiDetectId none).updateRow
      ((piiDetectTask env job.parameters).toModel "input_bindings") ∈ enrichmentRows env job :=
    List.mem_map_of_mem (List.mem_map_of_mem List.mem_cons_self)
  intro u hu
  obtain ⟨model, hmodel, rfl⟩ := List.mem_map.mp hu
  obtain ⟨task, htask, rfl⟩ := List.mem_map.mp hmodel
  rcases List.mem_cons.mp htask with rfl | htask
  · simp [Effect.updateRow, Task.toModel, piiDetectTask, newTask]
  · unfold redactionTasks at htask
    split at htask
    swap
    · cases htask
    rw [List.mem_singleton.mp htask]
    constructor
    · simp only [Effect.updateRow]
      split <;> simp [Task.toModel, audioRedactTask, newTask]
    · intro _
      refine ⟨_, hfirst, ?_⟩
      simp only [Effect.updateRow]
      split <;> simp [Task.toModel, audioRedactTask, piiDetectTask, newTask]

/-- Marking the first enrichment as ready leaves the older rows alone. -/
theorem rows_markReady {s : World} {job : JobModel}
    (hins : s.tasks.Insertable
      ((buildPostProcessingTasks env job).map (Task.toModel "input_bindings"))) :
    ((Effect.markReady env.piiDetectId none).apply ((Effect.saveEnrichmentTasks
      ((buildPostProcessingTasks env job).map (Task.toModel "input_bindings"))).apply s)).tasks.rows =
        s.tasks.rows ++ enrichmentRows env job := by
  have hfresh : ∀ t ∈ s.tasks.rows, t.id ≠ env.piiDetectId := by
    intro t ht hid
    have hnodup := hins.1
    rw [List.map_append, List.nodup_append] at hnodup
    refine hnodup.2.2 t.id (List.mem_map_of_mem ht) env.piiDetectId ?_ hid
    simp [buildPostProcessingTasks, Task.toModel, piiDetectTask, newTask]
  rw [Effect.rows_apply, Effect.rows_apply]
  simp only [Effect.newRows, if_pos hins, List.append_nil, List.map_append, enrichmentRows]
  congr 1
  rw [List.map_map]
  refine (List.map_congr_left fun t ht => ?_).trans (List.map_id _)
  simp [Effect.updateRow, hfresh t ht]

theorem wp_schedulePostProcessing_extends (job : JobModel) (s : World) :
    (schedulePostProcessing env job).wp (fun _ _ => True) (fun _ s' => Extends s s') s := by
  simp only [schedulePostProcessing, Program.wp_bind, Program.wp_perform]
  refine ⟨trivial, ?_⟩
  by_cases hins : s.tasks.Insertable
      ((buildPostProcessingTasks env job).map (Task.toModel "input_bindings"))
  swap
  · rw [if_neg hins]
    simpa [Effect.apply, hins] using Extends.refl s
  rw [if_pos hins]
  simp only [startPostProcessing, Program.wp_bind, wp_exec, wp_getWorld]
  refine ⟨trivial, trivial, trivial, ?_⟩
  refine Program.wp_post (wp_queueTask_ends env _ _ _) fun r s₂ hend => ?_
  have hextends : Extends s s₂ := by
    constructor
    · refine ⟨enrichmentRows env job, ?_, enrichmentRows_wait env job⟩
      rw [hend.1.2, ← rows_markReady hins]
      rfl
    · have hstream : ∀ s₁ : World, s₁ = (Effect.saveEnrichmentTasks
          ((buildPostProcessingTasks env job).map (Task.toModel "input_bindings"))).apply s →
            s₁.stream = s.stream := by
        rintro _ rfl
        simp [Effect.apply, hins]
      rcases hend.2 with ⟨_, _, entry, hs₂, _⟩ | ⟨hs₂, _⟩
      · rw [hs₂]
        exact (hstream _ rfl).symm ▸ List.prefix_append _ _
      · rw [hs₂]
        exact (hstream _ rfl).symm ▸ List.prefix_rfl
  rcases r with error | _
  · exact ⟨trivial, hextends.rows, hextends.stream⟩
  · exact hextends

theorem wp_checkJobCompletion_extends (s : World) :
    (checkJobCompletion env).wp (fun _ _ => True) (fun _ s' => Extends s s') s := by
  simp only [checkJobCompletion, Program.wp_bind, wp_selectTasks]
  refine ⟨trivial, ?_⟩
  split
  swap
  · exact Extends.refl s
  simp only [Program.wp_bind, wp_getWorld]
  refine ⟨trivial, ?_⟩
  split
  · exact Extends.refl s
  have hwrite : (writeTranscript (jobOutcome env s).transcript).wp (fun _ _ => True)
      (fun _ s' => SameTasks s s') s := by
    cases (jobOutcome env s).transcript with
    | none => exact ⟨rfl, rfl⟩
    | some transcript => exact ⟨trivial, rfl, rfl⟩
  simp only [finaliseJob, Program.wp_bind, wp_exec]
  refine Program.wp_post hwrite fun _ s₁ hs₁ => ⟨trivial, ?_⟩
  refine Program.wp_post (wp_announceEnd_sameTasks _ _) fun _ s₂ hs₂ => ?_
  have hsame : SameTasks s s₂ := ⟨hs₂.1.trans hs₁.1, hs₂.2.trans hs₁.2⟩
  split
  · refine Program.wp_post (wp_schedulePostProcessing_extends _ s₂) fun _ s₃ hs₃ => ?_
    obtain ⟨⟨new, hrows, hnew⟩, hstream⟩ := hs₃
    exact ⟨⟨new, hsame.1 ▸ hrows, hnew⟩, hsame.2 ▸ hstream⟩
  · exact hsame.extends

variable {b : Branch} {s₀ s₁ s s' : World}

theorem depsMet_iff {tasks : List TaskModel} {t : TaskModel} :
    depsMet tasks t ↔ ∀ id ∈ t.dependencies, id ∈ idsIn [.completed] tasks := by
  simp [depsMet]

/-- The loop finds the unblocked tasks whose dependencies are completed. -/
theorem isReady_iff (hs : Settled b s₀ s₁) {t₀ t₁ : TaskModel}
    (hdecl : t₁.declared = t₀.declared) (hstatus : t₁.status = settledRow b t₀) :
    IsReady s₁.tasks.rows t₁ ↔
      settledRow b t₀ = .pending ∧ ∀ id ∈ t₀.dependencies, settledCompleted b s₀ id := by
  rw [IsReady, depsMet_iff, hstatus, TaskModel.dependencies_of_declared hdecl]
  simp only [hs.completed]

/-- After the loop every row is the claimed row of an older one, or a new one. -/
theorem row_after {ids queued : List Uuid} (hp : Progress env s₁ ids queued s)
    (he : Extends s s') {t : TaskModel} (ht : t ∈ s₁.tasks.rows) :
    claimed env.now ids t ∈ s'.tasks.rows := by
  obtain ⟨new, hrows, _⟩ := he.rows
  rw [hrows, hp.rows]
  exact List.mem_append_left _ (List.mem_map_of_mem ht)

/-- What is done after the loop was settled before it. -/
theorem settles_of_done {ids queued : List Uuid} (hs : Settled b s₀ s₁)
    (hp : Progress env s₁ ids queued s) (he : Extends s s') {id : Uuid} (h : Done s' id) :
    Settles b s₀ id := by
  obtain ⟨u, hu, rfl, hdone⟩ := h
  obtain ⟨new, hrows, hnew⟩ := he.rows
  rw [hrows, hp.rows] at hu
  rcases List.mem_append.mp hu with hu | hu
  · obtain ⟨t, ht, rfl⟩ := List.mem_map.mp hu
    obtain ⟨t₀, ht₀, hdecl, hstatus⟩ := hs.old ht
    refine ⟨t₀, ht₀, ?_, ?_⟩
    · exact (TaskModel.id_of_declared ((declared_claimed _ _ _).trans hdecl)).symm
    · unfold claimed at hdone
      split at hdone
      · simp at hdone
      · rwa [← hstatus]
  · rcases (hnew u hu).1 with hstatus | hstatus <;> simp [hstatus] at hdone

/-- A pending row after the loop is an older one that the loop has not found. -/
theorem not_done_of_pending {ids queued : List Uuid} (hs : Settled b s₀ s₁)
    (hp : Progress env s₁ ids queued s) (he : Extends s s') {u : TaskModel}
    (hu : u ∈ s'.tasks.rows) (hpending : u.status = .pending)
    (hdone : ∀ id ∈ u.dependencies, Done s' id) :
    ∃ t₀, Unblocks b s₀ t₀ ∧ t₀.id = u.id ∧ u.id ∉ ids := by
  obtain ⟨new, hrows, hnew⟩ := he.rows
  have hu' := hu
  rw [hrows, hp.rows] at hu'
  rcases List.mem_append.mp hu' with hu' | hu'
  · obtain ⟨t, ht, rfl⟩ := List.mem_map.mp hu'
    obtain ⟨t₀, ht₀, hdecl, hstatus⟩ := hs.old ht
    have hdecl' := (declared_claimed env.now ids t).trans hdecl
    have hid : (claimed env.now ids t).id = t.id :=
      TaskModel.id_of_declared (declared_claimed _ _ _)
    have hnot : t.id ∉ ids := by
      intro hmem
      simp [claimed, hmem] at hpending
    refine ⟨t₀, ⟨ht₀, ?_, fun id hid => ?_⟩, (TaskModel.id_of_declared hdecl').symm, ?_⟩
    · rw [← hstatus]
      simpa [claimed, hnot] using hpending
    · rw [← TaskModel.dependencies_of_declared hdecl'] at hid
      exact settles_of_done hs hp he (hdone id hid)
    · rwa [hid]
  · obtain ⟨v, hv, hdep⟩ := (hnew u hu').2 hpending
    obtain ⟨w, hw, hid, hwdone⟩ := hdone v.id hdep
    have hv' : v ∈ s'.tasks.rows := by
      rw [hrows]
      exact List.mem_append_right _ hv
    obtain rfl := TaskTable.eq_of_id hw hv' hid
    rcases (hnew w hv).1 with h | h <;> simp [h] at hwdone

/-- When the loop has queued every ready task, it has left none behind if it finds them all. -/
theorem leavesNone_of_findsAll (hs : Settled b s₀ s₁) (hlive : s₀.job.status ≠ .cancelling)
    (hp : Progress env s₁ (readyIds s₁.tasks.rows s₁.tasks.rows)
      (readyIds s₁.tasks.rows s₁.tasks.rows) s) (he : Extends s s') (hfinds : FindsAll env b s₀) :
    LeavesNoneBehind b s₀ s' := by
  have hfound : ∀ t₀, Unblocks b s₀ t₀ → ∃ t ∈ s₁.tasks.rows, t.id = t₀.id ∧
      t.id ∈ readyIds s₁.tasks.rows s₁.tasks.rows := by
    intro t₀ h
    obtain ⟨t, ht, hdecl, hstatus⟩ := hs.new h.mem
    have hready := (isReady_iff hs hdecl hstatus).mpr ⟨h.pending, (hfinds hlive t₀ h).1⟩
    exact ⟨t, ht, TaskModel.id_of_declared hdecl, mem_readyIds.mpr ⟨t, ht, hready, rfl⟩⟩
  constructor
  · intro t₀ h
    obtain ⟨t, ht, hid, hmem⟩ := hfound t₀ h
    refine ⟨_, row_after hp he ht, ?_, Or.inl ⟨by simp [claimed, hmem], ?_⟩⟩
    · exact (TaskModel.id_of_declared (declared_claimed _ _ _)).trans hid
    · obtain ⟨entry, hentry, hentryid, hentrylive⟩ := (hp.entries t.id).mpr hmem
      refine ⟨entry, ?_, hentryid.trans hid, hentrylive⟩
      rw [← hs.stream]
      exact (List.IsPrefix.drop he.stream _).subset hentry
  · intro u hu hpending hdone
    obtain ⟨t₀, h, hid, hnot⟩ := not_done_of_pending hs hp he hu hpending hdone
    obtain ⟨t, _, hid', hmem⟩ := hfound t₀ h
    exact hnot (hid ▸ hid' ▸ hmem)

/-- A handler that leaves none behind has found every unblocked task. -/
theorem completed_of_leavesNone {ids queued : List Uuid} (hs : Settled b s₀ s₁)
    (hlive : s₀.job.status ≠ .cancelling) (hp : Progress env s₁ ids queued s)
    (he : Extends s s') (hids : ∀ id ∈ ids, id ∈ readyIds s₁.tasks.rows s₁.tasks.rows)
    (hleaves : LeavesNoneBehind b s₀ s') {t₀ : TaskModel} (h : Unblocks b s₀ t₀) :
    ∀ id ∈ t₀.dependencies, settledCompleted b s₀ id := by
  obtain ⟨t, ht, hdecl, hstatus⟩ := hs.new h.mem
  obtain ⟨u, hu, hid, hready⟩ := hleaves.queued t₀ h
  have hrow := row_after hp he ht
  have hid' : (claimed env.now ids t).id = t₀.id :=
    TaskModel.id_of_declared ((declared_claimed _ _ _).trans hdecl)
  obtain rfl := TaskTable.eq_of_id hu hrow (hid.trans hid'.symm)
  have hmem : t.id ∈ ids := by
    by_contra hnot
    rcases hready with ⟨hready, _⟩ | ⟨hcancelling, _⟩
    · simp [claimed, hnot, hstatus, h.pending] at hready
    · exact hlive hcancelling
  obtain ⟨t', ht', hready', hsame⟩ := mem_readyIds.mp (hids t.id hmem)
  obtain rfl := TaskTable.eq_of_id ht' ht hsame
  exact ((isReady_iff hs hdecl hstatus).mp hready').2

theorem Settled.unblocks (hs : Settled b s₀ s₁) {t : TaskModel} (ht : t ∈ s₁.tasks.rows)
    (hready : IsReady s₁.tasks.rows t) : ∃ t₀, Unblocks b s₀ t₀ ∧ t.declared = t₀.declared := by
  obtain ⟨t₀, ht₀, hdecl, hstatus⟩ := hs.old ht
  obtain ⟨hpending, hcompleted⟩ := (isReady_iff hs hdecl hstatus).mp hready
  refine ⟨t₀, ⟨ht₀, hpending, fun id hid => ?_⟩, hdecl⟩
  obtain ⟨u, hu, hid, hdone⟩ := hcompleted id hid
  exact ⟨u, hu, hid, Or.inl hdone⟩

/-- Cancelling the pending tasks leaves none of them behind. -/
theorem leavesNone_of_cancelled (hs : Settled b s₀ s₁) (hcancel : s₁.job.status = .cancelling)
    (h : s'.tasks = ((Effect.cancelTasks (idsIn [.pending] s₁.tasks.rows)).apply s₁).tasks) :
    LeavesNoneBehind b s₀ s' := by
  have hrows : s'.tasks.rows =
      s₁.tasks.rows.map (Effect.cancelTasks (idsIn [.pending] s₁.tasks.rows)).updateRow := by
    rw [h]
    rfl
  constructor
  · intro t₀ hunblocks
    obtain ⟨t, ht, hdecl, hstatus⟩ := hs.new hunblocks.mem
    have hmem : t.id ∈ idsIn [.pending] s₁.tasks.rows :=
      mem_idsIn.mpr ⟨t, ht, rfl, by simp [hstatus, hunblocks.pending]⟩
    refine ⟨{ t with status := .cancelled }, ?_, TaskModel.id_of_declared hdecl,
      Or.inr ⟨hs.job ▸ hcancel, rfl⟩⟩
    rw [hrows]
    exact List.mem_map.mpr ⟨t, ht, by simp [Effect.updateRow, hmem]⟩
  · intro u hu hpending _
    rw [hrows] at hu
    obtain ⟨t, ht, rfl⟩ := List.mem_map.mp hu
    simp only [Effect.updateRow] at hpending
    split at hpending
    · cases hpending
    · rename_i hnot
      exact hnot (mem_idsIn.mpr ⟨t, ht, rfl, by simp [hpending]⟩)

theorem wp_checkCancellation_tasks (env : Env) (s : World) :
    (checkJobCancellationComplete env).wp (fun _ _ => True) (fun _ s' => s'.tasks = s.tasks) s := by
  simp only [checkJobCancellationComplete, Program.wp_bind, wp_getWorld]
  refine ⟨trivial, ?_⟩
  split
  swap
  · rfl
  simp only [Program.wp_bind, wp_selectTasks]
  refine ⟨trivial, ?_⟩
  split
  · rfl
  simp only [Program.wp_bind, wp_exec]
  exact ⟨trivial, Program.wp_post (wp_announceEnd_sameTasks _ _) fun _ _ h => h.1⟩

/-- After the end of the loop, the handler has left none behind exactly if it finds them all. -/
theorem wp_afterDependents_iff (hs : Settled b s₀ s₁) (hlive : s₀.job.status ≠ .cancelling)
    {r : Except QueueError Unit} (h : LoopEnds env s₁ s₁.tasks.rows [] r s) :
    (afterDependents env r).wp (fun _ _ => True) (fun outcome s' => outcome = .returned →
      (LeavesNoneBehind b s₀ s' ↔ FindsAll env b s₀)) s := by
  rcases r with (detail | _) | _
  · obtain ⟨t, ht, hready, hfails, queued, hfresh, _, hp⟩ := h
    obtain ⟨t₀, hunblocks, hdecl⟩ := hs.unblocks ht hready
    simp only [afterDependents, failJobOnQueue, Program.wp_bind, wp_exec]
    refine ⟨trivial, Program.wp_post (wp_announceEnd_sameTasks _ _) fun _ s' hs' _ => ?_⟩
    refine iff_of_false (fun hleaves => ?_) fun hfinds => ?_
    · obtain ⟨u, _, _, ⟨_, hqueued⟩ | ⟨hcancelling, _⟩⟩ := hleaves.queued t₀ hunblocks
      · rw [Queued, hs'.2, ← hs.stream, ← TaskModel.id_of_declared hdecl] at hqueued
        exact hfresh ((hp.entries t.id).mp hqueued)
      · exact hlive hcancelling
    · have hengine := (hfinds hlive t₀ hunblocks).2
      rw [← engineFails_of_declared hdecl, hfails] at hengine
      cases hengine
  · intro h
    cases h
  · obtain ⟨hp, hengines⟩ := h
    rw [List.nil_append] at hp
    simp only [afterDependents, Program.wp_bind]
    refine Program.wp_post (wp_checkJobCompletion_extends s) fun _ s' he _ => ?_
    constructor
    · intro hleaves _ t₀ hunblocks
      have hcompleted :=
        completed_of_leavesNone hs hlive hp he (fun _ h => h) hleaves hunblocks
      obtain ⟨t, ht, hdecl, hstatus⟩ := hs.new hunblocks.mem
      have hready := (isReady_iff hs hdecl hstatus).mpr ⟨hunblocks.pending, hcompleted⟩
      refine ⟨hcompleted, ?_⟩
      rw [← engineFails_of_declared hdecl]
      exact hengines t ht hready
    · exact leavesNone_of_findsAll hs hlive hp he

theorem wp_continueJob_iff (hs : Settled b s₀ s₁) :
    (continueJob env).wp (fun _ _ => True) (fun outcome s' => outcome = .returned →
      (LeavesNoneBehind b s₀ s' ↔ FindsAll env b s₀)) s₁ := by
  simp only [continueJob, Program.wp_bind, wp_selectTasks, wp_getWorld]
  refine ⟨trivial, trivial, ?_⟩
  by_cases hcancel : s₁.job.status = .cancelling
  · rw [if_pos hcancel]
    simp only [Program.wp_bind, wp_exec]
    refine ⟨trivial, Program.wp_post (wp_checkCancellation_tasks env _) fun _ s' hs' _ => ?_⟩
    refine iff_of_true (leavesNone_of_cancelled hs hcancel hs') fun hlive => ?_
    exact absurd (hs.job ▸ hcancel) hlive
  · rw [if_neg hcancel]
    have hlive : s₀.job.status ≠ .cancelling := hs.job ▸ hcancel
    have hstart : Progress env s₁ [] [] s₁ :=
      ⟨rfl, by simp, List.prefix_rfl, by simp [Queued]⟩
    simp only [Program.wp_bind]
    refine Program.wp_post (wp_scheduleDependents_ends _ [] s₁ (by simp) s₁.tasks.uniqueId hstart)
      fun r s h => ?_
    exact wp_afterDependents_iff hs hlive h

end Completion

/-- A handler that has returned after it completed or skipped a task has left no unblocked
task behind exactly if it finds them all. -/
theorem leaves_none_behind_iff (d : Delivery) (s : World)
    (hsettles : (branch s d.event).completion.isSome)
    (hreturned : ((dispatch d.env d.event).run s).1 = .returned) :
    LeavesNoneBehind (branch s d.event) s (d.run s) ↔ FindsAll d.env (branch s d.event) s := by
  have h : (dispatch d.env d.event).wp (fun _ _ => True) (fun outcome s' => outcome = .returned →
      (LeavesNoneBehind (branch s d.event) s s' ↔ FindsAll d.env (branch s d.event) s)) s :=
    wp_completion (fun _ _ _ => trivial) (fun task status s₁ hs htask =>
      wp_finishTask status hs htask (fun _ _ _ _ => trivial) (fun _ => wp_continueJob_iff)
        fun _ h => by cases h) rfl hsettles
  exact Program.wp_run h hreturned

section RedactJob

/-- The job's first task is running and has produced its artifact. -/
def preparingJob : World := ((prepareMoves monoDag).take 3).foldl Move.apply redactJob

/-- The completion of the first task leaves no task behind. -/
theorem leaves_none_behind_iff_prepare :
    LeavesNoneBehind (branch preparingJob (.taskCompleted 0)) preparingJob
        ((Delivery.mk (sampleEnv monoDag fun _ => true) (.taskCompleted 0)).run preparingJob) ↔
      FindsAll (sampleEnv monoDag fun _ => true) (branch preparingJob (.taskCompleted 0))
        preparingJob :=
  leaves_none_behind_iff ⟨sampleEnv monoDag fun _ => true, .taskCompleted 0⟩ preparingJob
    (by decide) (by decide)

/-- The job's PII detection is running. -/
def detectingJob : World := enrichmentMoves.foldl Move.apply redactJob

theorem run_detectingJob : Run (fun _ _ => True) redactJob detectingJob :=
  run_of_moves enrichmentMoves redactJob
    (by simp [enrichmentMoves, pipelineMoves, prepareMoves, Move.event, ofEngine])

/-- The failure that skips the PII detection leaves the redaction pending for ever. -/
theorem skipped_dependency_blocks : ¬ ∀ (s : World) (d : Delivery),
    Run (fun _ _ => True) redactJob s → (branch s d.event).completion.isSome →
      ((dispatch d.env d.event).run s).1 = .returned →
        LeavesNoneBehind (branch s d.event) s (d.run s) := by
  intro h
  have hleaves := h detectingJob ⟨sampleEnv monoDag fun _ => true,
    .taskFailed 10 "libcublas.so.12 is not found or cannot be loaded"⟩ run_detectingJob
    (by decide) (by decide)
  have hblocked : ∃ u ∈ ((Delivery.mk (sampleEnv monoDag fun _ => true) (.taskFailed 10
      "libcublas.so.12 is not found or cannot be loaded")).run detectingJob).tasks.rows,
        u.status = .pending ∧ ∀ id ∈ u.dependencies, Done ((Delivery.mk
          (sampleEnv monoDag fun _ => true) (.taskFailed 10
            "libcublas.so.12 is not found or cannot be loaded")).run detectingJob) id := by
    decide
  obtain ⟨u, hu, hpending, hdone⟩ := hblocked
  exact hleaves.rest u hu hpending hdone

end RedactJob

end Dalston.Orchestrator
