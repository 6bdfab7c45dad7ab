import Dalston.Orchestrator.Recovery

/-!
# Bindings of saved tasks

Both builders declare the artifact bindings of a task, and a task is saved with
its bindings in its configuration. The scheduler looks for them under the key
the DAG's tasks are saved with; the post-processor saves its tasks with another
key. So a task of the DAG is always queued with the bindings it was declared
with, and a task of the post-processor only when it declares none.

## Implementation notes

Every queueing writes the task's request document before it adds the stream
entry, and the reconciler adds an entry for the document that is there. The
requests of the worlds of a run are therefore all that an engine ever reads.
-/

namespace Dalston.Orchestrator

open Foundation Model

/-- The bindings the scheduler finds in a saved configuration. -/
def storedBindings (config : Config) : List Json :=
  match config.get? "request_bindings" with
  | some (.arr bindings) => bindings
  | _ => []

theorem withBindings_modelValidate (t : TaskModel) :
    (withBindings (Task.modelValidate t)).inputBindings = storedBindings t.config := by
  unfold withBindings storedBindings
  split
  · rename_i h
    simp only [Task.modelValidate] at h
    simp [h]
  · rename_i h
    split
    · rename_i bindings hget
      exact (h bindings rfl hget).elim
    · rfl

/-- A task's own bindings stand when its configuration holds no others. -/
theorem withBindings_of_declares {task : Task} (h : Declares task) :
    (withBindings task).inputBindings = task.inputBindings := by
  unfold withBindings
  split
  · rename_i hnil hget
    rw [h.plain hnil] at hget
    cases hget
  · rfl

/-- The two builders of tasks. -/
inductive Builder
  | dag
  | postProcessing

/-- The configuration key a builder's tasks are saved with. -/
def Builder.bindingsKey : Builder → String
  | dag => "request_bindings"
  | postProcessing => "input_bindings"

/-- The tasks a builder can produce. -/
def Builder.Produces : Builder → Task → Prop
  | dag, task => ∃ uuid4 audioUri speechRegions selection tasks,
      buildTasks uuid4 audioUri speechRegions selection = .ok tasks ∧ task ∈ tasks
  | postProcessing, task => ∃ env job, task ∈ buildPostProcessingTasks env job

/-- The row a builder's task is saved as. -/
def Builder.model (builder : Builder) (task : Task) : TaskModel :=
  task.toModel builder.bindingsKey

/-- The bindings of a row saved by a builder, as the scheduler finds them. -/
def Builder.kept : Builder → Task → List Json
  | dag, task => task.inputBindings
  | postProcessing, _ => []

theorem get?_piiDetectConfig (parameters : Config) :
    (piiDetectConfig parameters).get? "request_bindings" = none := by
  unfold piiDetectConfig
  split
  · rw [Dict.get?_set_ne _ _ (by decide)]
    simp [Dict.get?_cons]
  · simp [Dict.get?_cons]

theorem declares_of_produces {builder : Builder} {task : Task} (h : builder.Produces task) :
    Declares task := by
  cases builder with
  | dag =>
      obtain ⟨_, _, _, _, _, hbuild, hmem⟩ := h
      exact declares_buildTasks hbuild task hmem
  | postProcessing =>
      obtain ⟨env, job, hmem⟩ := h
      rcases List.mem_cons.mp hmem with rfl | hmem
      · exact ⟨⟨[], rfl⟩, fun _ => get?_piiDetectConfig job.parameters⟩
      · unfold redactionTasks at hmem
        split at hmem
        · rw [List.mem_singleton.mp hmem]
          exact ⟨⟨[audioInputBinding none], rfl⟩, fun h => by cases h⟩
        · cases hmem

/-- Saving a task of the DAG keeps its bindings; saving an enrichment drops them. -/
theorem storedBindings_model {builder : Builder} {task : Task} (h : builder.Produces task) :
    storedBindings (builder.model task).config = builder.kept task := by
  have hdeclares := declares_of_produces h
  cases builder with
  | dag =>
      simp only [storedBindings, Builder.model, Task.toModel, Builder.bindingsKey, Builder.kept]
      by_cases hnil : task.inputBindings = []
      · simp [hnil, hdeclares.plain hnil]
      · simp [hnil]
  | postProcessing =>
      obtain ⟨env, job, hmem⟩ := h
      rcases List.mem_cons.mp hmem with rfl | hmem
      · have hconfig : (Builder.postProcessing.model (piiDetectTask env job.parameters)).config =
            piiDetectConfig job.parameters := rfl
        rw [hconfig, storedBindings, get?_piiDetectConfig]
        rfl
      · unfold redactionTasks at hmem
        split at hmem
        · rw [List.mem_singleton.mp hmem]
          rfl
        · cases hmem

/-- What a request that carries the given bindings reads them as. -/
theorem modelDump_of_mapM {bindings : List RequestBinding} {read : List RequestBinding}
    (h : (bindings.map RequestBinding.modelDump).mapM RequestBinding.modelValidate = some read) :
    read = bindings := by
  rw [RequestBinding.mapM_modelValidate_modelDump] at h
  exact (Option.some.inj h).symm

/-- The surroundings build their DAGs with the DAG builder. -/
def Builds (env : Env) : Prop :=
  ∀ job dag, env.buildTaskDag job = .ok dag → ∃ uuid4 audioUri speechRegions selection,
    buildTasks uuid4 audioUri speechRegions selection = .ok dag.tasks

/-- The row was saved by a builder. -/
def BuilderRow (t : TaskModel) : Prop :=
  ∃ builder : Builder, ∃ task, builder.Produces task ∧ t.declared = (builder.model task).declared

theorem config_of_declared {t u : TaskModel} (h : t.declared = u.declared) :
    t.config = u.config := by
  simpa [TaskModel.declared] using congrArg TaskModel.config h

/-- The request carries the saved bindings of a row with the id. -/
def RequestRow (s : World) (id : Uuid) (request : TaskRequestData) : Prop :=
  ∃ model, Saved s model ∧ model.id = id ∧
    (storedBindings model.config).mapM RequestBinding.modelValidate = some request.requestBindings

theorem RequestRow.apply {s : World} {id : Uuid} {request : TaskRequestData}
    (h : RequestRow s id request) (e : Effect) : RequestRow (e.apply s) id request := by
  obtain ⟨model, hsaved, hid, hcarries⟩ := h
  exact ⟨model, hsaved.apply e, hid, hcarries⟩

/-- Every row was saved by a builder, and every request carries the bindings of its row. -/
structure BindingsStored (s : World) : Prop where
  rows : ∀ t ∈ s.tasks.rows, BuilderRow t
  requests : ∀ id request, s.requests id = some request → RequestRow s id request

/-- The requests after an effect: only a request document that is written is new. -/
theorem requests_apply (e : Effect) (s : World) {id : Uuid} {request : TaskRequestData}
    (h : (e.apply s).requests id = some request) :
    s.requests id = some request ∨ e = .putRequest id request := by
  cases e with
  | putRequest taskId written =>
      simp only [Effect.apply, Function.update_apply] at h
      split at h
      · rename_i hid
        rw [hid, Option.some.inj h]
        exact Or.inr rfl
      · exact Or.inl h
  | saveTasks tasks now =>
      simp only [Effect.apply] at h
      split at h <;> exact Or.inl h
  | saveEnrichmentTasks tasks =>
      simp only [Effect.apply] at h
      split at h <;> exact Or.inl h
  | addTaskOnce queueId taskId retries =>
      simp only [Effect.apply] at h
      split at h <;> exact Or.inl h
  | _ => exact Or.inl h

theorem BindingsStored.apply {s : World} {e : Effect} (h : BindingsStored s)
    (hnew : ∀ t ∈ e.newRows s, BuilderRow t)
    (hput : ∀ id request, e = .putRequest id request → RequestRow s id request) :
    BindingsStored (e.apply s) := by
  constructor
  · intro t ht
    rw [e.rows_apply] at ht
    rcases List.mem_append.mp ht with ht | ht
    · obtain ⟨u, hu, rfl⟩ := List.mem_map.mp ht
      obtain ⟨builder, task, hproduces, hdecl⟩ := h.rows u hu
      exact ⟨builder, task, hproduces, (e.declared_updateRow u).trans hdecl⟩
    · exact hnew t ht
  · intro id request hrequest
    rcases requests_apply e s hrequest with hold | hwritten
    · exact (h.requests id request hold).apply e
    · exact (hput id request hwritten).apply e

section Handlers

variable {env : Env} {b : Branch} {s s₁ : World}

theorem builderRow_of_newRows (hbuilds : b = .build → Builds env) {e : Effect}
    (h : Permits env b s s₁ e) : ∀ t ∈ e.newRows s₁, BuilderRow t := by
  intro t ht
  cases e with
  | saveTasks tasks now =>
      obtain ⟨hb, rfl, dag, hdag, rfl⟩ := h
      simp only [Effect.newRows] at ht
      split at ht
      · obtain ⟨task, htask, rfl⟩ := List.mem_map.mp ht
        obtain ⟨uuid4, audioUri, speechRegions, selection, hbuild⟩ := hbuilds hb _ dag hdag
        exact ⟨.dag, task, ⟨uuid4, audioUri, speechRegions, selection, _, hbuild, htask⟩, rfl⟩
      · cases ht
  | saveEnrichmentTasks tasks =>
      obtain ⟨_, _, job, rfl⟩ := h
      simp only [Effect.newRows] at ht
      split at ht
      · obtain ⟨task, htask, rfl⟩ := List.mem_map.mp ht
        exact ⟨.postProcessing, task, ⟨env, job, htask⟩, rfl⟩
      · cases ht
  | _ => cases ht

/-- Whatever the queued task comes from, its request carries the saved bindings. -/
theorem requestRow_of_hands (hbuilds : b = .build → Builds env) (hp : Persists s s₁) {task : Task}
    {request : TaskRequestData} (h : Hands env b s s₁ task) (hcarries : Carries task request) :
    RequestRow s₁ task.id request := by
  have hbuilt : ∀ (builder : Builder), builder.Produces task →
      Saved s₁ (builder.model task) → builder.kept task = task.inputBindings →
        RequestRow s₁ task.id request := by
    intro builder hproduces hsaved hkept
    refine ⟨builder.model task, hsaved, rfl, ?_⟩
    rw [storedBindings_model hproduces, hkept,
      ← withBindings_of_declares (declares_of_produces hproduces)]
    exact hcarries
  cases h with
  | root hb hdag hroot hsaved =>
      obtain ⟨uuid4, audioUri, speechRegions, selection, hbuild⟩ := hbuilds hb _ _ hdag
      exact hbuilt .dag ⟨uuid4, audioUri, speechRegions, selection, _, hbuild,
        List.mem_of_mem_filter hroot⟩ hsaved rfl
  | enrichment job hsaved =>
      exact hbuilt .postProcessing ⟨env, job, List.mem_cons_self⟩ hsaved rfl
  | row hmem hdecl =>
      refine ⟨_, hp _ hmem, (TaskModel.id_of_declared hdecl).symm, ?_⟩
      rw [← config_of_declared hdecl, ← withBindings_modelValidate]
      exact hcarries

theorem bindingsStored_of_permits {A : Type} {p : Action A} {Q : A → World → Prop}
    (hbuilds : b = .build → Builds env) (hs : BindingsStored s)
    (hp : p.wp (Permits env b s) Q s) : ∀ s' ∈ p.cuts s, BindingsStored s' := by
  intro s' hs'
  refine (Program.wp_invariant (I := fun s₁ => Persists s s₁ ∧ BindingsStored s₁) hp
    ⟨Persists.refl s, hs⟩ (fun s₁ e hI he => ⟨hI.1.apply e, ?_⟩) s' hs').2
  refine hI.2.apply (builderRow_of_newRows hbuilds he) ?_
  rintro id request rfl
  obtain ⟨task, hhands, rfl, hcarries⟩ := he
  exact requestRow_of_hands hbuilds hI.1 hhands hcarries

end Handlers

theorem bindingsStored_of_step {s s' : World}
    (h : SystemStep (fun d _ => Builds d.env) (fun _ _ => True) s s') (hs : BindingsStored s) :
    BindingsStored s' := by
  cases h with
  | event h =>
      cases h with
      | deliver d ok h =>
          exact bindingsStored_of_permits (fun _ => ok) hs (wp_dispatch d.env d.event s) s' h
      | engine e h =>
          refine hs.apply ?_ ?_
          · cases e <;> first | exact h.elim | simp [Effect.newRows]
          · rintro id request rfl
            exact h.elim
  | scanner sweep e h _ =>
      have hscan := only_scan sweep e h
      refine hs.apply ?_ ?_
      · cases e <;> first | exact hscan.elim | simp [Effect.newRows]
      · rintro id request rfl
        exact hscan.elim
  | reconciler sweep e h _ =>
      have hreconcile := only_reconcileTasks sweep e h
      refine hs.apply ?_ ?_
      · cases e <;> first | exact hreconcile.elim | simp [Effect.newRows]
      · rintro id request rfl
        exact hreconcile.elim
  | stuckJob env sweep h =>
      obtain ⟨b, hb, _, hwp⟩ := wp_reconcileStuckJob env sweep s
      exact bindingsStored_of_permits (fun hbuild => absurd hbuild hb) hs hwp s' h

theorem bindingsStored_of_run {job : JobModel} {s : World}
    (h : SystemRun (fun d _ => Builds d.env) (fun _ _ => True) (submitted job) s) :
    BindingsStored s := by
  induction h with
  | refl =>
      constructor
      · intro t ht
        cases ht
      · intro id request hrequest
        cases hrequest
  | tail _ hstep ih => exact bindingsStored_of_step hstep ih

/-- The request of a saved task has the bindings that saving the task has kept. -/
theorem request_of_saved {s : World} (hs : BindingsStored s) {builder : Builder} {task : Task}
    (hproduces : builder.Produces task) (hsaved : Saved s (builder.model task))
    {request : TaskRequestData} (hrequest : s.requests task.id = some request) :
    request.requestBindings.map RequestBinding.modelDump = builder.kept task := by
  obtain ⟨model, ⟨t, ht, hdecl⟩, hid, hcarries⟩ := hs.requests _ _ hrequest
  obtain ⟨u, hu, hdeclu⟩ := hsaved
  have hids : t.id = u.id := by
    rw [TaskModel.id_of_declared hdecl, TaskModel.id_of_declared hdeclu, hid]
    rfl
  have htu : t = u := TaskTable.eq_of_id ht hu hids
  have hconfig : model.config = (builder.model task).config :=
    (config_of_declared hdecl).symm.trans (htu ▸ config_of_declared hdeclu)
  rw [hconfig, storedBindings_model hproduces] at hcarries
  have hkept : ∃ bindings : List RequestBinding,
      builder.kept task = bindings.map RequestBinding.modelDump := by
    cases builder with
    | dag => exact (declares_of_produces hproduces).dumped
    | postProcessing => exact ⟨[], rfl⟩
  obtain ⟨bindings, hbindings⟩ := hkept
  rw [hbindings] at hcarries
  rw [modelDump_of_mapM hcarries, hbindings]

/-- Every request that is ever written belongs to a builder's task, and it has the bindings
the builder declared exactly when the DAG builder made the task or it declares none. -/
theorem requests_keep_bindings {job : JobModel} {s : World}
    (h : SystemRun (fun d _ => Builds d.env) (fun _ _ => True) (submitted job) s) {id : Uuid}
    {request : TaskRequestData} (hrequest : s.requests id = some request) :
    (∃ builder : Builder, ∃ task, builder.Produces task ∧ Saved s (builder.model task) ∧
      task.id = id) ∧
    ∀ (builder : Builder) (task : Task), builder.Produces task → Saved s (builder.model task) →
      task.id = id →
        (request.requestBindings.map RequestBinding.modelDump = task.inputBindings ↔
          builder = .dag ∨ task.inputBindings = []) := by
  have hs := bindingsStored_of_run h
  constructor
  · obtain ⟨model, ⟨t, ht, hdecl⟩, hid, _⟩ := hs.requests id request hrequest
    obtain ⟨builder, task, hproduces, hdeclt⟩ := hs.rows t ht
    refine ⟨builder, task, hproduces, ⟨t, ht, hdeclt⟩, ?_⟩
    rw [← hid, ← TaskModel.id_of_declared hdecl, TaskModel.id_of_declared hdeclt]
    rfl
  · rintro builder task hproduces hsaved rfl
    rw [request_of_saved hs hproduces hsaved hrequest]
    cases builder with
    | dag => simp [Builder.kept]
    | postProcessing => simp [Builder.kept, eq_comm]

section RedactJob

theorem buildTasks_monoDag :
    buildTasks id "s3://artifacts/audio.wav" false ⟨[], []⟩ = .ok monoDag.tasks := rfl

theorem builds_sampleEnv (available : Uuid → Bool) : Builds (sampleEnv monoDag available) := by
  rintro job dag ⟨⟩
  exact ⟨id, "s3://artifacts/audio.wav", false, ⟨[], []⟩, buildTasks_monoDag⟩

theorem conforms_event (event : Event) :
    (Move.event monoDag event).Conforms fun d => Builds d.env := builds_sampleEnv _

/-- The job's tasks have just been created and its first task queued. -/
def createdJob : World := (Move.event monoDag .jobCreated).apply redactJob

/-- The request of the first task. -/
def prepareRequest : TaskRequestData where
  payload := none
  previousResponses := []
  config := []
  requestBindings := []
  resolvedArtifactIds := [("audio", "source:audio")]
  artifactIndex := [("source:audio", sourceReference "s3://artifacts/audio.wav")]

/-- The first task, which declares no bindings, is queued with none. -/
theorem requests_keep_bindings_prepare :
    prepareRequest.requestBindings.map RequestBinding.modelDump = prepareTask.inputBindings ↔
      Builder.dag = .dag ∨ prepareTask.inputBindings = [] := by
  have hrun : Run (fun d _ => Builds d.env) redactJob createdJob :=
    Relation.ReflTransGen.single (Step.run _ (builds_sampleEnv _))
  have hproduces : Builder.dag.Produces prepareTask :=
    ⟨id, _, _, _, _, buildTasks_monoDag, List.mem_cons_self⟩
  have hsaved : Saved createdJob (Builder.dag.model prepareTask) := ⟨_, List.mem_cons_self, rfl⟩
  have hrequest : createdJob.requests 0 = some prepareRequest := rfl
  exact (requests_keep_bindings (systemRun_of_run hrun) hrequest).2 .dag prepareTask hproduces
    hsaved rfl

/-- The moves that complete the PII detection and queue the redaction of the audio. -/
def redactMoves : List Move := enrichmentMoves ++ [Move.event monoDag (.taskCompleted 10)]

def redactedJob : World := redactMoves.foldl Move.apply redactJob

theorem run_redactedJob : Run (fun d _ => Builds d.env) redactJob redactedJob := by
  refine run_of_moves redactMoves redactJob ?_
  simp [redactMoves, enrichmentMoves, pipelineMoves, prepareMoves, conforms_event, ofEngine]

/-- The task that redacts the audio of the job. -/
def redactTask : Task :=
  audioRedactTask (sampleEnv monoDag fun _ => true)
    [("pii_detection", .bool true), ("redact_pii_audio", .bool true)]

theorem produces_redactTask : Builder.postProcessing.Produces redactTask :=
  ⟨sampleEnv monoDag fun _ => true, redactJob.job, List.mem_cons_of_mem _ List.mem_cons_self⟩

theorem saved_redactTask : Saved redactedJob (Builder.postProcessing.model redactTask) := by
  have hlength : 3 < redactedJob.tasks.rows.length := by decide
  exact ⟨redactedJob.tasks.rows[3], List.getElem_mem hlength, rfl⟩

/-- The task that redacts the audio is queued without the binding it was declared with. -/
theorem redaction_loses_binding : ¬ ∀ (s : World) (id : Uuid) (request : TaskRequestData),
    SystemRun (fun d _ => Builds d.env) (fun _ _ => True) redactJob s →
      s.requests id = some request →
        ∀ (builder : Builder) (task : Task), builder.Produces task →
          Saved s (builder.model task) → task.id = id →
            request.requestBindings.map RequestBinding.modelDump = task.inputBindings := by
  intro h
  have hwritten : ((redactedJob.requests 11).map fun r => r.requestBindings.length) = some 0 := by
    decide
  obtain ⟨request, hrequest, hlength⟩ := Option.map_eq_some_iff.mp hwritten
  have hkept := h redactedJob 11 request (systemRun_of_run run_redactedJob) hrequest
    .postProcessing redactTask produces_redactTask saved_redactTask rfl
  have hlengths := congrArg List.length hkept
  rw [List.length_map, hlength] at hlengths
  exact absurd hlengths (by decide)

end RedactJob

end Dalston.Orchestrator
