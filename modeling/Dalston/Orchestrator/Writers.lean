import Dalston.Foundation.Session
import Dalston.Orchestrator.Recovery

/-!
# The writers of a job

Handlers in any number of orchestrators, scans, reconciliations and the
gateway's cancellations write the rows of one job at once. Each runs in its own
session, which keeps the rows it has read and the rows it has committed. The
one theorem of this module is that every status a call commits has its grounds
in the rows its session knows; what other calls did meanwhile is not its
concern.

## Implementation notes

The updates that carry a status in their `WHERE` clause need no grounds. A read
of the source may look at one row or at a Redis key; here every read shows the
whole world, so a session knows at least what the source's session has loaded.
-/

namespace Dalston.Orchestrator

open Foundation Model

/-- `CANCELLABLE_STATES`. -/
def cancellable : JobStatus → Bool
  | .pending | .running => true
  | .completed | .failed | .cancelling | .cancelled => false

/-- What a cancellation makes of the job's status. -/
def cancelStatus (tasks : List TaskModel) : JobStatus :=
  if tasks.any fun t => t.status = .running then .cancelling else .cancelled

/-- `JobsService.cancel_job`, and what its endpoint does after it. -/
def cancelJob (now : Time) : Action Unit := do
  let w ← getWorld
  if cancellable w.job.status then do
    exec (.requestCancel (cancelStatus w.tasks.rows)
      (idsIn [.pending, .ready] w.tasks.rows) now)
    exec (.publish .jobCancelRequested)
    if cancelStatus w.tasks.rows = .cancelled then decrementConcurrentJobs else return ()
  else return ()

/-- A call that writes the rows of the job. -/
inductive Writer
  | handler (env : Env) (event : Event)
  | scanner (sweep : Sweep)
  | reconciler (env : Env) (sweep : Sweep)
  | gateway (now : Time)

def Writer.code : Writer → Action Unit
  | handler env event => do
      let _ ← dispatch env event
      return ()
  | scanner sweep => scan sweep
  | reconciler env sweep => reconcile env sweep
  | gateway now => cancelJob now

/-- The rows of a task that a session has read since its last commit to it, or that commit. -/
abbrev Known := Uuid → List TaskModel

/-- The tasks whose status the effect writes whatever it is. -/
def overwrites : Effect → List Uuid
  | .requestCancel _ ids _ | .cancelTasks ids => ids
  | .markReady id _ | .completeTask id _ | .retryTask id .. | .skipTask id .. | .failTask id .. =>
      [id]
  | .settleOrphans completed failed _ => completed ++ failed
  | _ => []

/-- The tasks whose status the effect writes if it is the one in its `WHERE` clause. -/
def claims : Effect → List Uuid
  | .claimReady id _ | .claimRunning id _ => [id]
  | _ => []

/-- The rows the effect tries to insert. -/
def inserts : Effect → List TaskModel
  | .saveTasks tasks _ | .saveEnrichmentTasks tasks => tasks
  | _ => []

/-- The tasks that the effect commits to. -/
def commits (e : Effect) : List Uuid := overwrites e ++ (claims e ++ (inserts e).map (·.id))

/-- What an effect that only looks shows of a task. -/
def shows (s : World) (id : Uuid) : Effect → List TaskModel
  | .read => (s.tasks.get? id).toList
  | _ => []

/-- An assignment changes the rows the session has loaded of a task, a guarded update and an
insert replace them, and a read adds to them. -/
def learn (k : Known) (e : Effect) (s : World) : Known := fun id =>
  if id ∈ overwrites e then (k id).map e.updateRow
  else if id ∈ commits e then ((e.apply s).tasks.get? id).toList
  else shows s id e ++ k id

/-- No session has loaded a row yet. -/
def unread : Known := fun _ => []

/-- The writers of the job on its stores, each in its session. -/
abbrev JobPool := Pool Writer (Noted Effect Known) World (Unit × Known)

abbrev JobTurn := Turn Writer (Noted Effect Known)

abbrev sessions (c : Writer) : Program (Noted Effect Known) World (Unit × Known) :=
  c.code.noting learn unread

/-- Beside the writers, the engines do as they please. -/
def EnginesOnly (_ : JobPool) : JobTurn → Prop
  | .outside n => ofEngine n.effect
  | .start _ | .move _ | .fail _ => True

/-- The changes of a task's status that its writers make from the status they read: the
guards of the handlers, of the scanner, the reconciler and the gateway. -/
def allowsChange : TaskStatus → TaskStatus → Bool
  | .pending, .ready | .pending, .completed | .pending, .failed | .pending, .skipped
  | .pending, .cancelled => true
  | .ready, .running | .ready, .completed | .ready, .failed | .ready, .skipped
  | .ready, .cancelled => true
  | .running, .ready | .running, .completed | .running, .failed | .running, .skipped => true
  -- the completion of a task that was taken for lost
  | .failed, .completed => true
  | _, _ => false

/-- The effect has its grounds in the given row of the task it writes to. -/
structure Grounds (e : Effect) (u : TaskModel) : Prop where
  change : allowsChange u.status (e.updateRow u).status ∨
    u.status = .cancelled ∧ ∃ now, e = .completeTask u.id now
  optional : (e.updateRow u).status = .skipped → u.required = false

/-- Every status the effect writes has its grounds in what the session knows. -/
structure Grounded (k : Known) (e : Effect) : Prop where
  row : ∀ id ∈ overwrites e, ∃ u ∈ k id, u.id = id ∧ Grounds e u
  fresh : ∀ t ∈ inserts e, t.status = .pending
  /-- A job that starts has a pipeline. -/
  starts : ∀ tasks now, e = .saveTasks tasks now → pipelineTasks tasks ≠ []

/-- The effect overwrites no status and inserts no row. -/
def Unassuming : Effect → Prop
  | .requestCancel .. | .saveTasks .. | .saveEnrichmentTasks _ | .markReady .. | .completeTask ..
  | .retryTask .. | .skipTask .. | .failTask .. | .cancelTasks _ | .settleOrphans .. => False
  | _ => True

/-- The effect commits to no task. -/
def Quiet (e : Effect) : Prop := Unassuming e ∧ claims e = []

section Effects

variable {s : World} {e : Effect}

/-- The rows of a task before and after an effect are one row and its update. -/
theorem eq_updateRow {t t' : TaskModel} (ht : t ∈ s.tasks.rows)
    (ht' : t' ∈ (e.apply s).tasks.rows) (hid : t'.id = t.id) : t' = e.updateRow t := by
  have hmem : e.updateRow t ∈ (e.apply s).tasks.rows := by
    rw [e.rows_apply]
    exact List.mem_append_left _ (List.mem_map_of_mem ht)
  exact TaskTable.eq_of_id ht' hmem
    (hid.trans (TaskModel.id_of_declared (e.declared_updateRow t)).symm)

theorem updateRow_of_untouched {t : TaskModel} (hover : t.id ∉ overwrites e)
    (hclaim : t.id ∉ claims e) : e.updateRow t = t := by
  cases e <;> simp_all [overwrites, claims, Effect.updateRow]

/-- What is overwritten does not depend on the row it is written to. -/
theorem status_updateRow {t u : TaskModel} (hid : u.id = t.id) (hover : t.id ∈ overwrites e) :
    (e.updateRow t).status = (e.updateRow u).status := by
  cases e <;> simp only [overwrites, List.mem_append, List.mem_singleton, List.not_mem_nil] at hover
  case settleOrphans completed failed now =>
    simp only [Effect.updateRow, hid]
    split_ifs <;> first | rfl | exact absurd hover (by simp [*])
  all_goals simp [Effect.updateRow, hid, hover]

end Effects

section Quiet

theorem quiet_read : Quiet .read := ⟨trivial, rfl⟩

theorem only_selectTasks : selectTasks.Only Quiet :=
  Program.only_bind (only_getWorld quiet_read) fun _ => Program.only_done _

theorem only_announceWait (task : Task) (waiting : Bool) : (announceWait task waiting).Only Quiet := by
  cases waiting with
  | true => exact only_exec ⟨trivial, rfl⟩
  | false => exact Program.only_done _

theorem only_registerWait (task : Task) (waiting : Bool) : (registerWait task waiting).Only Quiet := by
  cases waiting with
  | true => exact only_exec ⟨trivial, rfl⟩
  | false => exact Program.only_done _

theorem only_enqueue (task : Task) (key : Option Nat) : (enqueue task key).Only Quiet := by
  cases key with
  | none => exact Program.only_perform_bind ⟨trivial, rfl⟩ fun _ => only_exec ⟨trivial, rfl⟩
  | some retries =>
      refine Program.only_perform_bind ⟨trivial, rfl⟩ fun before => ?_
      split
      · exact Program.only_done _
      · exact only_exec ⟨trivial, rfl⟩

theorem only_queueTask (env : Env) (task : Task) (responses : Config)
    (audio : Option AudioMetadata) (key : Option Nat) :
    (queueTask env task responses audio key).Only Quiet := by
  simp only [queueTask]
  split
  · exact Program.only_done _
  · refine Program.only_bind (only_announceWait _ _) fun _ => ?_
    refine Program.only_bind (only_exec ⟨trivial, rfl⟩) fun _ => ?_
    refine Program.only_bind (only_registerWait _ _) fun _ => ?_
    refine Program.only_bind (only_getWorld quiet_read) fun w => ?_
    unfold dispatchRequest
    split
    · exact Program.only_done _
    · refine Program.only_bind (only_exec ⟨trivial, rfl⟩) fun _ => ?_
      refine Program.only_bind (only_exec ⟨trivial, rfl⟩) fun _ => ?_
      exact Program.only_bind (only_enqueue _ _) fun _ => Program.only_done _

theorem only_decrementConcurrentJobs : decrementConcurrentJobs.Only Quiet := by
  refine Program.only_perform_bind ⟨trivial, rfl⟩ fun before => ?_
  split
  · exact Program.only_done _
  · refine Program.only_perform_bind ⟨trivial, rfl⟩ fun before => ?_
    split
    · exact only_exec ⟨trivial, rfl⟩
    · exact Program.only_done _

theorem only_announceEnd (event : Event) : (announceEnd event).Only Quiet :=
  Program.only_bind only_decrementConcurrentJobs fun _ => only_exec ⟨trivial, rfl⟩

theorem only_failJobOnQueue (env : Env) (detail : Config) : (failJobOnQueue env detail).Only Quiet :=
  Program.only_bind (only_exec ⟨trivial, rfl⟩) fun _ => only_announceEnd _

theorem only_failJobOnBuild (env : Env) (message : String) :
    (failJobOnBuild env message).Only Quiet :=
  Program.only_bind (only_exec ⟨trivial, rfl⟩) fun _ => only_announceEnd _

theorem only_updateTranscriptWithPii : updateTranscriptWithPii.Only Quiet := by
  refine Program.only_bind (only_getWorld quiet_read) fun w => ?_
  cases transcriptPatch w with
  | none => exact Program.only_done _
  | some patch => exact Program.only_bind (only_exec ⟨trivial, rfl⟩) fun _ => only_exec ⟨trivial, rfl⟩

theorem only_recordEnrichment (task : TaskModel) (status : TaskStatus) :
    (recordEnrichment task status).Only Quiet := by
  unfold recordEnrichment
  split
  · refine Program.only_bind (only_exec ⟨trivial, rfl⟩) fun _ => ?_
    refine Program.only_bind (only_getWorld quiet_read) fun w => ?_
    split
    · exact only_updateTranscriptWithPii
    · exact Program.only_done _
  · exact Program.only_done _

theorem only_updateAudioDuration (task : TaskModel) : (updateAudioDuration task).Only Quiet := by
  unfold updateAudioDuration
  split
  · refine Program.only_bind (only_getWorld quiet_read) fun w => ?_
    split
    · exact Program.only_done _
    · exact Program.only_done _
    · exact Program.only_bind (only_exec ⟨trivial, rfl⟩) fun _ => Program.only_done _
    · exact Program.only_done _
  · exact Program.only_done _

theorem only_checkJobCancellationComplete (env : Env) :
    (checkJobCancellationComplete env).Only Quiet := by
  refine Program.only_bind (only_getWorld quiet_read) fun w => ?_
  split
  · refine Program.only_bind only_selectTasks fun tasks => ?_
    split
    · exact Program.only_done _
    · exact Program.only_bind (only_exec ⟨trivial, rfl⟩) fun _ => only_announceEnd _
  · exact Program.only_done _

theorem only_ensureJobFailedSideEffects (env : Env) (task : TaskModel) (error : ErrorText) :
    (ensureJobFailedSideEffects env task error).Only Quiet := by
  refine Program.only_bind ?_ fun _ =>
    Program.only_bind (only_announceEnd _) fun _ => Program.only_done _
  refine Program.only_bind (only_getWorld quiet_read) fun w => ?_
  split
  · exact Program.only_done _
  · exact Program.only_done _
  all_goals exact Program.only_bind (only_exec ⟨trivial, rfl⟩) fun _ => Program.only_done _

theorem only_markEnrichmentFailed (task : TaskModel) : (markEnrichmentFailed task).Only Quiet := by
  unfold markEnrichmentFailed
  split
  · exact only_exec ⟨trivial, rfl⟩
  · exact Program.only_done _

end Quiet

section Recalls

/-- What a session keeps in mind of the given knowledge. -/
def Recalls (k k' : Known) : Prop := ∀ id, k id ⊆ k' id

theorem Recalls.refl (k : Known) : Recalls k k := fun _ => List.Subset.refl _

theorem Recalls.trans {k k' k'' : Known} (h : Recalls k k') (h' : Recalls k' k'') :
    Recalls k k'' := fun id => List.Subset.trans (h id) (h' id)

theorem nothing_of_unassuming {e : Effect} (h : Unassuming e) :
    overwrites e = [] ∧ inserts e = [] := by
  cases e <;> first | exact h.elim | exact ⟨rfl, rfl⟩

theorem recalls_learn {e : Effect} (h : Quiet e) (k : Known) (s : World) :
    Recalls k (learn k e s) := by
  intro id u hu
  obtain ⟨hover, hnew⟩ := nothing_of_unassuming h.1
  simp [learn, commits, hover, hnew, h.2, hu]

theorem grounded_of_unassuming {k : Known} {e : Effect} (h : Unassuming e) : Grounded k e := by
  obtain ⟨hover, hnew⟩ := nothing_of_unassuming h
  refine ⟨by simp [hover], by simp [hnew], ?_⟩
  rintro tasks now rfl
  exact h.elim

variable {A : Type} {p : Action A} {k : Known} {Q : A → Known → Prop}

/-- A program that commits to no task forgets nothing. -/
theorem heeds_of_quiet (h : p.Only Quiet) (hQ : ∀ a k', Recalls k k' → Q a k') :
    p.Heeds learn Grounded Q k :=
  Program.heeds_of_only h (R := Recalls k) (Recalls.refl k)
    (fun _ _ _ he => grounded_of_unassuming he.1)
    (fun k' _ s hk he => hk.trans (recalls_learn he k' s)) hQ

/-- A program that overwrites nothing has nothing to give grounds for. -/
theorem heeds_of_unassuming (h : p.Only Unassuming) (hQ : ∀ a k', Q a k') :
    p.Heeds learn Grounded Q k :=
  Program.heeds_of_only h (R := fun _ => True) trivial
    (fun _ _ _ he => grounded_of_unassuming he) (fun _ _ _ _ _ => trivial) fun a k' _ => hQ a k'

theorem only_unassuming (h : p.Only Quiet) : p.Only Unassuming := fun e he =>
  (h e he).1

end Recalls

section Reads

variable {A B : Type} {k : Known} {Q : B → Known → Prop}

/-- The session knows every row of the world. -/
def Loaded (s : World) (k : Known) : Prop := ∀ t ∈ s.tasks.rows, t ∈ k t.id

theorem mem_learn_read {s : World} {id : Uuid} {t : TaskModel} (h : s.tasks.get? id = some t) :
    t ∈ learn k .read s id := by
  simp [learn, commits, overwrites, claims, inserts, shows, h]

theorem loaded_read (k : Known) (s : World) : Loaded s (learn k .read s) := fun _ ht =>
  mem_learn_read (TaskTable.get?_self ht)

theorem Loaded.recalls {s : World} {k k' : Known} (h : Loaded s k) (hk : Recalls k k') :
    Loaded s k' := fun t ht => hk t.id (h t ht)

theorem grounded_read (k : Known) : Grounded k .read := grounded_of_unassuming trivial

theorem heeds_getWorld {f : World → Action B}
    (h : ∀ s, (f s).Heeds learn Grounded Q (learn k .read s)) :
    (getWorld >>= f).Heeds learn Grounded Q k :=
  ⟨grounded_read k, h⟩

theorem heeds_selectTasks {f : List TaskModel → Action B}
    (h : ∀ s, (f s.tasks.rows).Heeds learn Grounded Q (learn k .read s)) :
    (selectTasks >>= f).Heeds learn Grounded Q k :=
  ⟨grounded_read k, h⟩

theorem heeds_getTask {id : Uuid} {f : Option TaskModel → Action B}
    (h : ∀ s, (f (s.tasks.get? id)).Heeds learn Grounded Q (learn k .read s)) :
    (getTask id >>= f).Heeds learn Grounded Q k :=
  ⟨grounded_read k, h⟩

theorem heeds_exec {e : Effect} {f : Unit → Action B} (he : Grounded k e)
    (h : ∀ s, (f ()).Heeds learn Grounded Q (learn k e s)) :
    (exec e >>= f).Heeds learn Grounded Q k :=
  ⟨he, h⟩

theorem heeds_then {p : Action A} {f : A → Action B}
    (hp : p.Heeds learn Grounded (fun a k' => (f a).Heeds learn Grounded Q k') k) :
    (p >>= f).Heeds learn Grounded Q k :=
  Program.heeds_bind.mpr hp

end Reads

section Grounds

variable {k : Known} {s : World}

/-- One task is overwritten on the grounds of a known row of it. -/
theorem grounded_of_row {e : Effect} {u : TaskModel} (hid : overwrites e = [u.id])
    (hnew : inserts e = []) (hu : u ∈ k u.id) (h : Grounds e u) : Grounded k e := by
  refine ⟨fun id hmem => ?_, by simp [hnew], ?_⟩
  · rw [hid, List.mem_singleton] at hmem
    exact ⟨u, hmem ▸ hu, hmem.symm, h⟩
  · rintro tasks now rfl
    cases hid

/-- Waiting tasks are cancelled. -/
theorem grounds_of_waiting {e : Effect} {u : TaskModel}
    (hopen : u.status = .pending ∨ u.status = .ready)
    (he : (e.updateRow u).status = .cancelled) : Grounds e u := by
  refine ⟨Or.inl ?_, by simp [he]⟩
  rcases hopen with h | h <;> simp [h, he, allowsChange]

theorem grounded_cancelTasks {statuses : List TaskStatus} (hk : Loaded s k)
    (hstatuses : ∀ status ∈ statuses, status = .pending ∨ status = .ready) :
    Grounded k (.cancelTasks (idsIn statuses s.tasks.rows)) := by
  refine ⟨fun id hid => ?_, by simp [inserts], fun _ _ h => nomatch h⟩
  obtain ⟨t, ht, rfl, hstatus⟩ := mem_idsIn.mp hid
  refine ⟨t, hk t ht, rfl, grounds_of_waiting (hstatuses _ hstatus) ?_⟩
  exact congrArg TaskModel.status (if_pos hid)

theorem grounded_requestCancel {status : JobStatus} {now : Time} (hk : Loaded s k) :
    Grounded k (.requestCancel status (idsIn [.pending, .ready] s.tasks.rows) now) := by
  refine ⟨fun id hid => ?_, by simp [inserts], fun _ _ h => nomatch h⟩
  obtain ⟨t, ht, rfl, hstatus⟩ := mem_idsIn.mp hid
  refine ⟨t, hk t ht, rfl, grounds_of_waiting (by simpa using hstatus) ?_⟩
  exact congrArg TaskModel.status (if_pos hid)

/-- A task is marked as ready on the grounds of a pending row of it. -/
theorem grounded_markReady {id : Uuid} {now : Option Time} {u : TaskModel} (hu : u ∈ k id)
    (hid : u.id = id) (hpending : u.status = .pending) : Grounded k (.markReady id now) := by
  subst hid
  refine grounded_of_row rfl rfl hu ⟨Or.inl ?_, ?_⟩ <;>
    simp [Effect.updateRow, hpending, allowsChange]

/-- The session knows the rows that it has just inserted. -/
theorem mem_learn_insert {e : Effect} {u : TaskModel} (hover : overwrites e = [])
    (hrows : (e.apply s).tasks.rows = s.tasks.rows ++ inserts e) (hu : u ∈ inserts e) :
    u ∈ learn k e s u.id := by
  have hcommit : u.id ∈ commits e := by
    simp only [commits, List.mem_append, List.mem_map]
    exact Or.inr (Or.inr ⟨u, hu, rfl⟩)
  have hget : (e.apply s).tasks.get? u.id = some u := by
    refine TaskTable.get?_self ?_
    rw [hrows]
    exact List.mem_append_right _ hu
  simp [learn, hover, hcommit, hget]

/-- A commit to other tasks leaves what the session knows of a task. -/
theorem mem_learn_of_not_commits {e : Effect} {id : Uuid} {u : TaskModel} (hu : u ∈ k id)
    (h : id ∉ commits e) : u ∈ learn k e s id := by
  have hover : id ∉ overwrites e := fun hid => h (List.mem_append_left _ hid)
  simp [learn, hover, h, hu]

theorem mem_learn_overwrite {e : Effect} {id : Uuid} {u : TaskModel} (hu : u ∈ k id)
    (h : id ∈ overwrites e) : e.updateRow u ∈ learn k e s id := by
  simp only [learn, if_pos h]
  exact List.mem_map_of_mem hu

end Grounds

section Handlers

variable {env : Env} {k : Known}

/-- The program's commits have their grounds in what its session knows. -/
abbrev Justified {A : Type} (p : Action A) (k : Known) : Prop :=
  p.Heeds learn Grounded (fun _ _ => True) k

theorem justified_of_quiet {A : Type} {p : Action A} (h : p.Only Quiet) : Justified p k :=
  heeds_of_quiet h fun _ _ _ => trivial

theorem justified_done {A : Type} (a : A) : Justified (.done a : Action A) k := trivial

theorem justified_startPostProcessing {job : JobModel} {u : TaskModel}
    (hu : u ∈ k u.id) (hid : u.id = (piiDetectTask env job.parameters).id)
    (hpending : u.status = .pending) : Justified (startPostProcessing env job) k := by
  refine heeds_exec (grounded_of_unassuming trivial) fun s => ?_
  have hquiet : Quiet (.setEnrichments ((buildPostProcessingTasks env job).map (·.stage))) :=
    ⟨trivial, rfl⟩
  have hu' := recalls_learn hquiet k s u.id hu
  refine heeds_exec (grounded_markReady (hid ▸ hu') hid hpending) fun s' => ?_
  refine justified_of_quiet (Program.only_bind (only_getWorld quiet_read) fun w => ?_)
  refine Program.only_bind (only_queueTask _ _ _ _ _) fun r => ?_
  cases r with
  | ok => exact Program.only_done _
  | error _ => exact only_exec ⟨trivial, rfl⟩

theorem pending_of_postProcessing {job : JobModel} {t : TaskModel}
    (h : t ∈ (buildPostProcessingTasks env job).map (Task.toModel "input_bindings")) :
    t.status = .pending := by
  obtain ⟨task, htask, rfl⟩ := List.mem_map.mp h
  simp only [buildPostProcessingTasks, redactionTasks, List.mem_cons] at htask
  rcases htask with rfl | htask
  · rfl
  · split at htask
    · obtain rfl := List.mem_singleton.mp htask
      rfl
    · cases htask

theorem justified_schedulePostProcessing (job : JobModel) :
    Justified (schedulePostProcessing env job) k := by
  refine Program.heeds_perform_bind.mpr
    ⟨⟨by simp [overwrites], fun t ht => pending_of_postProcessing ht, fun _ _ h => nomatch h⟩,
      fun s => ?_⟩
  split
  · rename_i hins
    refine justified_startPostProcessing
      (u := (piiDetectTask env job.parameters).toModel "input_bindings") ?_ rfl rfl
    refine mem_learn_insert rfl ?_ (by simp [inserts, buildPostProcessingTasks])
    simp [Effect.apply, inserts, hins]
  · exact justified_done ()

theorem justified_checkJobCompletion : Justified (checkJobCompletion env) k := by
  refine heeds_selectTasks fun s => ?_
  split
  swap
  · exact justified_done ()
  refine heeds_getWorld fun w => ?_
  split
  · exact justified_done ()
  have hwrite : (writeTranscript (jobOutcome env w).transcript).Only Quiet := by
    cases (jobOutcome env w).transcript with
    | none => exact Program.only_done _
    | some transcript => exact only_exec ⟨trivial, rfl⟩
  refine heeds_then (heeds_of_quiet hwrite fun _ _ _ => ?_)
  refine heeds_exec (grounded_of_unassuming trivial) fun _ => ?_
  refine heeds_then (heeds_of_quiet (only_announceEnd _) fun _ _ _ => ?_)
  split
  · exact justified_schedulePostProcessing w.job
  · exact justified_done ()

theorem only_scheduleDependents (tasks rest : List TaskModel) :
    (scheduleDependents env tasks rest).Only Unassuming := by
  induction rest with
  | nil => exact Program.only_done _
  | cons task rest ih =>
      rw [scheduleDependents]
      split
      · refine Program.only_bind ?_ fun r => ?_
        · refine Program.only_perform_bind trivial fun before => ?_
          split
          · refine Program.only_bind (only_getWorld trivial) fun w => ?_
            exact only_unassuming (only_queueTask _ _ _ _ _)
          · exact Program.only_done _
        · cases r with
          | ok => exact ih
          | error e => exact Program.only_done _
      · exact ih

theorem justified_afterDependents (r : Except QueueError Unit) :
    Justified (afterDependents env r) k := by
  match r with
  | .ok () =>
      refine heeds_then ?_
      exact Program.heeds_mono justified_checkJobCompletion fun _ _ _ => justified_done _
  | .error (.engine detail) =>
      exact justified_of_quiet
        (Program.only_bind (only_failJobOnQueue _ _) fun _ => Program.only_done _)
  | .error .other => exact justified_done _

theorem justified_continueJob : Justified (continueJob env) k := by
  refine heeds_selectTasks fun s => heeds_getWorld fun w => ?_
  have hloaded : Loaded s (learn (learn k .read s) .read w) :=
    (loaded_read k s).recalls (recalls_learn quiet_read _ _)
  split
  · refine heeds_exec (grounded_cancelTasks hloaded (by simp)) fun _ => ?_
    exact justified_of_quiet
      (Program.only_bind (only_checkJobCancellationComplete _) fun _ => Program.only_done _)
  · exact heeds_then (heeds_of_unassuming (only_scheduleDependents _ _) fun r _ =>
      justified_afterDependents r)

theorem justified_finishTask (task : TaskModel) (status : TaskStatus) :
    Justified (finishTask env task status) k := by
  refine heeds_then (heeds_of_quiet (only_recordEnrichment task status) fun _ _ _ => ?_)
  refine heeds_then (heeds_of_quiet (only_updateAudioDuration task) fun r _ _ => ?_)
  cases r with
  | returned => exact justified_continueJob
  | raised => exact justified_done _

/-- A completion is committed to a task that is neither completed nor skipped. -/
theorem grounds_completeTask {u : TaskModel} {now : Time} (hcompleted : u.status ≠ .completed)
    (hskipped : u.status ≠ .skipped) : Grounds (.completeTask u.id now) u := by
  refine ⟨?_, by simp [Effect.updateRow]⟩
  cases h : u.status <;> simp_all [Effect.updateRow, allowsChange]

theorem justified_handleTaskCompleted (id : Uuid) :
    Justified (handleTaskCompleted env id) k := by
  refine heeds_getTask fun s => ?_
  rcases hget : s.tasks.get? id with _ | task
  · exact justified_done _
  have hid : task.id = id := (TaskTable.get?_eq_some.mp hget).2
  have hknown : task ∈ learn k .read s task.id := hid ▸ mem_learn_read hget
  refine heeds_then ?_
  unfold settleTask
  split
  · exact justified_finishTask task _
  · exact justified_finishTask task _
  all_goals
    rename_i hstatus
    refine heeds_exec (grounded_of_row rfl rfl hknown
      (grounds_completeTask (by simp [hstatus]) (by simp [hstatus]))) fun _ => ?_
    exact justified_finishTask task _

/-- Queue a ready task; an engine error fails it. -/
theorem justified_ensureRetryEnqueued {task u : TaskModel} (hu : u ∈ k task.id) (hid : u.id = task.id) (hstatus : u.status = .ready) :
    Justified (ensureRetryEnqueued env task) k := by
  refine heeds_selectTasks fun s => heeds_getWorld fun w => ?_
  refine heeds_then (heeds_of_quiet (only_queueTask _ _ _ _ _) fun r k' hk' => ?_)
  match r with
  | .ok () => exact justified_done _
  | .error .other => exact justified_done _
  | .error (.engine detail) =>
      have hknown : u ∈ k' task.id :=
        hk' _ (recalls_learn quiet_read _ _ _ (recalls_learn quiet_read _ _ _ hu))
      refine heeds_exec (grounded_of_row (u := u) (by rw [hid]; rfl) rfl (hid ▸ hknown)
        ⟨Or.inl ?_, ?_⟩) fun _ => justified_of_quiet (only_ensureJobFailedSideEffects _ _ _)
      · simp [Effect.updateRow, hid, hstatus, allowsChange]
      · simp [Effect.updateRow, hid]

theorem justified_failRunningTask {task : TaskModel} {error : String}
    (hrunning : task.status = .running) (hknown : task ∈ k task.id) :
    Justified (failRunningTask env task error) k := by
  unfold failRunningTask
  split
  · have hgrounds : Grounds (.retryTask task.id error env.now) task := by
      refine ⟨Or.inl ?_, ?_⟩ <;> simp [Effect.updateRow, hrunning, allowsChange]
    refine heeds_exec (grounded_of_row rfl rfl hknown hgrounds) fun s => ?_
    refine justified_ensureRetryEnqueued (mem_learn_overwrite hknown (by simp [overwrites]))
      ?_ ?_ <;> simp [Effect.updateRow]
  · split
    · refine heeds_exec (grounded_of_row rfl rfl hknown ⟨Or.inl ?_, ?_⟩) fun _ =>
        justified_of_quiet (only_ensureJobFailedSideEffects _ _ _)
      · simp [Effect.updateRow, hrunning, allowsChange]
      · simp [Effect.updateRow]
    · rename_i hoptional
      refine heeds_exec (grounded_of_row rfl rfl hknown ⟨Or.inl ?_, fun _ => ?_⟩) fun _ => ?_
      · simp [Effect.updateRow, hrunning, allowsChange]
      · simpa using hoptional
      · exact heeds_then (heeds_of_quiet (only_markEnrichmentFailed task) fun _ _ _ =>
          justified_handleTaskCompleted task.id)

theorem justified_handleTaskFailed (id : Uuid) (error : String) :
    Justified (handleTaskFailed env id error) k := by
  refine heeds_getTask fun s => ?_
  rcases hget : s.tasks.get? id with _ | task
  · exact justified_done _
  have hid : task.id = id := (TaskTable.get?_eq_some.mp hget).2
  have hknown : task ∈ learn k .read s task.id := hid ▸ mem_learn_read hget
  dsimp only
  split
  · exact justified_handleTaskCompleted id
  · exact justified_of_quiet (only_ensureJobFailedSideEffects _ _ _)
  · exact justified_ensureRetryEnqueued hknown rfl ‹_›
  · exact justified_failRunningTask ‹_› hknown
  all_goals exact justified_done _

/-- A task that waits for its engine is failed or skipped. -/
theorem justified_timeOut {task : TaskModel} {error : String}
    (hopen : task.status = .ready ∨ task.status = .pending) (hknown : task ∈ k task.id) :
    Justified (if task.required then do
      exec (.failTask task.id (.text error) (some env.now))
      ensureJobFailedSideEffects env task (.text error)
    else do
      exec (.skipTask task.id error (some env.now))
      handleTaskCompleted env task.id) k := by
  split
  · refine heeds_exec (grounded_of_row rfl rfl hknown ⟨Or.inl ?_, ?_⟩) fun _ =>
      justified_of_quiet (only_ensureJobFailedSideEffects _ _ _)
    · rcases hopen with h | h <;> simp [Effect.updateRow, h, allowsChange]
    · simp [Effect.updateRow]
  · rename_i hoptional
    refine heeds_exec (grounded_of_row rfl rfl hknown ⟨Or.inl ?_, fun _ => ?_⟩) fun _ =>
      justified_handleTaskCompleted task.id
    · rcases hopen with h | h <;> simp [Effect.updateRow, h, allowsChange]
    · simpa using hoptional

theorem justified_handleTaskWaitTimeout (id : Uuid) (error : String) :
    Justified (handleTaskWaitTimeout env id error) k := by
  refine heeds_getTask fun s => ?_
  rcases hget : s.tasks.get? id with _ | task
  · exact justified_done _
  obtain rfl : task.id = id := (TaskTable.get?_eq_some.mp hget).2
  have hknown : task ∈ learn k .read s task.id := mem_learn_read hget
  dsimp only
  split
  · exact justified_handleTaskCompleted task.id
  · exact justified_of_quiet (only_ensureJobFailedSideEffects _ _ _)
  · exact justified_timeOut (Or.inl ‹_›) hknown
  · exact justified_timeOut (Or.inr ‹_›) hknown
  all_goals exact justified_done _

theorem justified_handleJobCancelRequested : Justified (handleJobCancelRequested env) k := by
  refine heeds_exec (grounded_of_unassuming trivial) fun _ => ?_
  refine heeds_selectTasks fun s => ?_
  refine heeds_exec (grounded_cancelTasks (loaded_read _ s) (by simp)) fun _ => ?_
  exact justified_of_quiet
    (Program.only_bind (only_checkJobCancellationComplete _) fun _ => Program.only_done _)

/-- The roots are queued one after the other, each on the grounds of its own insert. -/
theorem justified_queueRoots (audio : Option AudioMetadata) (tasks : List Task)
    (hnodup : (tasks.map (·.id)).Nodup)
    (hknown : ∀ t ∈ tasks, ∃ u ∈ k t.id, u.id = t.id ∧ u.status = .pending) :
    Justified (queueRoots env audio tasks) k := by
  induction tasks generalizing k with
  | nil => exact justified_done _
  | cons task rest ih =>
      obtain ⟨hfresh, hrest⟩ := List.nodup_cons.mp hnodup
      obtain ⟨u, hu, hid, hpending⟩ := hknown task (by simp)
      refine heeds_exec (grounded_markReady hu hid hpending) fun s => ?_
      refine heeds_then (heeds_of_quiet (only_queueTask _ _ _ _ _) fun r k' hk' => ?_)
      match r with
      | .ok () =>
          refine ih hrest fun t ht => ?_
          obtain ⟨v, hv, hvid, hvpending⟩ := hknown t (List.mem_cons_of_mem _ ht)
          have hother : t.id ∉ commits (.markReady task.id (some env.now)) := by
            simp only [commits, overwrites, claims, inserts, List.map_nil, List.append_nil,
              List.mem_singleton]
            exact fun h => hfresh (List.mem_map.mpr ⟨t, ht, h⟩)
          exact ⟨v, hk' _ (mem_learn_of_not_commits hv hother), hvid, hvpending⟩
      | .error (.engine detail) =>
          exact justified_of_quiet
            (Program.only_bind (only_failJobOnQueue _ _) fun _ => Program.only_done _)
      | .error .other => exact justified_done _

/-- A DAG has its prepare stage in its pipeline. -/
theorem pipelineTasks_dagModels (dag : Dag) : pipelineTasks (dagModels dag) ≠ [] := by
  obtain ⟨task, htask, _⟩ := dag.prepare
  refine List.ne_nil_of_mem (a := task.toModel "request_bindings") ?_
  refine List.mem_filter.mpr ⟨List.mem_map_of_mem htask, ?_⟩
  have hflag : flag task.config "post_processing" = false := (dag.pipeline task htask).1
  simp only [isPostProcessingTask, Task.toModel]
  split
  · simp [hflag]
  · simpa [flag, Dict.get?_set] using hflag

theorem justified_saveDag (job : JobModel) (dag : Dag) : Justified (saveDag env job dag) k := by
  refine Program.heeds_perform_bind.mpr
    ⟨⟨by simp [overwrites], fun t ht => ?_, fun tasks now h => ?_⟩, fun s => ?_⟩
  · obtain ⟨task, htask, rfl⟩ := List.mem_map.mp ht
    exact (dag.pending task htask).1
  · obtain ⟨rfl, rfl⟩ := Effect.saveTasks.inj h
    exact pipelineTasks_dagModels dag
  split
  · rename_i hins
    have hrows : ((Effect.saveTasks (dagModels dag) env.now).apply s).tasks.rows =
        s.tasks.rows ++ inserts (.saveTasks (dagModels dag) env.now) := by
      simp [Effect.apply, inserts, hins]
    refine justified_queueRoots _ _ ?_ fun t ht => ?_
    · exact dag.uniqueId.sublist (List.filter_sublist.map _)
    · have ht' : t ∈ dag.tasks := List.mem_of_mem_filter ht
      have hmodel : t.toModel "request_bindings" ∈
          inserts (.saveTasks (dagModels dag) env.now) := List.mem_map_of_mem ht'
      exact ⟨_, mem_learn_insert rfl hrows hmodel, rfl, (dag.pending t ht').1⟩
  · split <;> exact justified_done _

theorem justified_handleJobCreated : Justified (handleJobCreated env) k := by
  refine heeds_getWorld fun w => ?_
  have hbuild : ∀ k, Justified (buildJob env w.job) k := by
    intro k
    refine heeds_selectTasks fun s => ?_
    split
    · exact justified_done _
    · split
      · exact justified_of_quiet
          (Program.only_bind (only_failJobOnBuild _ _) fun _ => Program.only_done _)
      · exact justified_done _
      · exact justified_saveDag _ _
  split <;> first | exact justified_done _ | exact hbuild _

theorem justified_dispatch (event : Event) : Justified (dispatch env event) k := by
  cases event with
  | jobCreated => exact justified_handleJobCreated
  | taskStarted id =>
      exact heeds_exec (grounded_of_unassuming trivial) fun _ => justified_done _
  | taskCompleted id => exact justified_handleTaskCompleted id
  | taskFailed id error => exact justified_handleTaskFailed id error
  | taskWaitTimeout id error => exact justified_handleTaskWaitTimeout id error
  | jobCancelRequested => exact justified_handleJobCancelRequested
  | jobCompleted | jobFailed _ | jobCancelled | engineNeeded _ => exact justified_done _

end Handlers

section Sweeps

variable {k : Known}

theorem justified_scanEntries (sweep : Sweep) (entries : List StreamEntry) :
    Justified (scanEntries sweep entries) k := by
  induction entries generalizing k with
  | nil => exact justified_done ()
  | cons entry rest ih =>
      rw [scanEntries]
      split
      · exact ih
      refine heeds_then (heeds_getTask fun s => ?_)
      unfold failIfRunning
      split
      · exact ih
      rename_i task hget
      split
      swap
      · exact ih
      rename_i hrunning
      obtain hid : task.id = entry.taskId := (TaskTable.get?_eq_some.mp hget).2
      have hknown : task ∈ learn k .read s task.id := hid ▸ mem_learn_read hget
      have hgrounds : ∀ error, Grounds (.failTask entry.taskId error (some sweep.now)) task := by
        intro error
        refine ⟨Or.inl ?_, ?_⟩ <;> simp [Effect.updateRow, hid, hrunning, allowsChange]
      refine heeds_exec (grounded_of_row (by rw [hid]; rfl) rfl hknown (hgrounds _)) fun _ => ?_
      exact Program.heeds_mono (justified_of_quiet (only_exec ⟨trivial, rfl⟩)) fun _ _ _ => ih

theorem only_scanWaitingTasks (sweep : Sweep) (ids : List Uuid) :
    (scanWaitingTasks sweep ids).Only Quiet := by
  have hdelete : ∀ messageId, (deleteMessage messageId).Only Quiet := by
    intro messageId
    cases messageId with
    | none => exact Program.only_done _
    | some messageId => exact only_exec ⟨trivial, rfl⟩
  have htimeOut : ∀ task metadata, (timeOutTask sweep task metadata).Only Quiet := by
    intro task metadata
    refine Program.only_bind (only_exec ⟨trivial, rfl⟩) fun _ => ?_
    refine Program.only_bind (only_exec ⟨trivial, rfl⟩) fun _ => ?_
    exact Program.only_bind (hdelete _) fun _ => only_exec ⟨trivial, rfl⟩
  induction ids with
  | nil => exact Program.only_done _
  | cons id rest ih =>
      refine Program.only_bind (only_getWorld quiet_read) fun w => ?_
      refine Program.only_bind ?_ fun _ => ih
      unfold scanWaitingIn
      split <;> try split_ifs
      all_goals
        first
        | exact Program.only_done _
        | exact htimeOut _ _
        | exact only_exec ⟨trivial, rfl⟩

theorem justified_scan (sweep : Sweep) : Justified (scan sweep) k := by
  refine heeds_then (heeds_getWorld fun w => ?_)
  refine Program.heeds_mono (justified_scanEntries sweep _) fun _ _ _ => ?_
  exact justified_of_quiet
    (Program.only_bind (only_getWorld quiet_read) fun _ => only_scanWaitingTasks sweep _)

theorem quiet_of_requeueing {e : Effect} (h : requeueing e) : Quiet e := by
  cases e <;> first | exact h.elim | exact ⟨trivial, rfl⟩

theorem only_publishOrphans (responses : Uuid → Option Config) (tasks : List TaskModel) :
    (publishOrphans responses tasks).Only Quiet := by
  induction tasks with
  | nil => exact Program.only_done _
  | cons task rest ih => exact Program.only_bind (only_exec ⟨trivial, rfl⟩) fun _ => ih

theorem orphan_iff {sweep : Sweep} {w : World} {t : TaskModel} (h : t ∈ orphans sweep w) :
    t ∈ w.tasks.rows ∧ t.status = .running := by
  simp only [orphans, List.mem_filter, Bool.and_eq_true, decide_eq_true_eq] at h
  exact ⟨h.1, h.2.1.1.1⟩

theorem grounded_settleOrphans {w : World} {found : List TaskModel} {now : Time}
    (hfound : ∀ t ∈ found, t ∈ k t.id ∧ t.status = .running) :
    Grounded k (.settleOrphans ((found.filter (hasResponse w)).map (·.id))
      ((found.filter fun t => !hasResponse w t).map (·.id)) now) := by
  refine ⟨fun id hid => ?_, by simp [inserts], fun _ _ h => nomatch h⟩
  have hmem : ∃ t ∈ found, t.id = id := by
    rcases List.mem_append.mp hid with hid | hid
    all_goals
      obtain ⟨t, ht, rfl⟩ := List.mem_map.mp hid
      exact ⟨t, List.mem_of_mem_filter ht, rfl⟩
  obtain ⟨t, ht, rfl⟩ := hmem
  obtain ⟨hknown, hrunning⟩ := hfound t ht
  refine ⟨t, hknown, rfl, ?_, ?_⟩
  · refine Or.inl ?_
    simp only [Effect.updateRow]
    split_ifs with hcompleted hfailed
    · simp [hrunning, allowsChange]
    · simp [hrunning, allowsChange]
    · rcases List.mem_append.mp hid with h | h
      · exact absurd h hcompleted
      · exact absurd h hfailed
  · simp only [Effect.updateRow]
    split_ifs <;> simp [hrunning]

theorem justified_reconcileTasks (sweep : Sweep) : Justified (reconcileTasks sweep) k := by
  refine heeds_getWorld fun w₀ => heeds_then (heeds_getWorld fun w => ?_)
  have hrest : ∀ k, Justified (do
      ackEndedEntries (pendingEntries w₀)
      requeueDeadEntries sweep (pendingEntries w₀)
      requeueConsumed sweep ((← getWorld).tasks.rows.filter fun t => t.status = .ready)) k := by
    intro k
    refine justified_of_quiet fun e h => ?_
    exact quiet_of_requeueing (only_repairEntries sweep _ e h)
  refine heeds_then (heeds_of_quiet (only_publishOrphans _ _) fun _ k' hk' => ?_)
  split
  · exact hrest _
  · refine ⟨grounded_settleOrphans fun t ht => ?_, fun _ => hrest _⟩
    obtain ⟨hmem, hrunning⟩ := orphan_iff ht
    exact ⟨hk' _ (loaded_read _ w t hmem), hrunning⟩

theorem justified_reconcile (env : Env) (sweep : Sweep) : Justified (reconcile env sweep) k := by
  refine heeds_then (Program.heeds_mono (justified_reconcileTasks sweep) fun _ k' _ => ?_)
  refine heeds_getWorld fun w => ?_
  dsimp only
  split
  · exact justified_checkJobCompletion
  · exact justified_done ()

theorem justified_cancelJob (now : Time) : Justified (cancelJob now) k := by
  refine heeds_getWorld fun w => ?_
  split
  swap
  · exact justified_done ()
  refine heeds_exec (grounded_requestCancel (loaded_read k w)) fun _ => ?_
  refine justified_of_quiet (Program.only_bind (only_exec ⟨trivial, rfl⟩) fun _ => ?_)
  split
  · exact only_decrementConcurrentJobs
  · exact Program.only_done _

end Sweeps

/-- Every status a call commits has its grounds in what its session knows. -/
theorem justified_code (c : Writer) : Justified c.code unread := by
  cases c with
  | handler env event =>
      exact heeds_then (Program.heeds_mono (justified_dispatch event) fun _ _ _ => justified_done ())
  | scanner sweep => exact justified_scan sweep
  | reconciler env sweep => exact justified_reconcile env sweep
  | gateway now => exact justified_cancelJob now

end Dalston.Orchestrator
