import Dalston.Orchestrator.Permits

/-!
# Deliveries of events

A delivery runs the handler of one event in its surroundings. Its process may
die between any two effects, so a delivery leads to every world its handler can
be cut in. A run is a sequence of deliveries of any events, in any order.
-/

namespace Dalston.Orchestrator

open Foundation Model

/-- One invocation of a handler. -/
structure Delivery where
  env : Env
  event : Event

namespace Delivery

/-- The worlds a delivery can leave behind. -/
def Leads (d : Delivery) (s s' : World) : Prop := s' ∈ (dispatch d.env d.event).cuts s

/-- The world after a delivery whose handler is not interrupted. -/
def run (d : Delivery) (s : World) : World := ((dispatch d.env d.event).run s).2

theorem leads_run (d : Delivery) (s : World) : d.Leads s (d.run s) :=
  Program.run_mem_cuts _ s

/-- Every effect of a delivery is permitted, in a world that still has the old rows. -/
theorem permits_of_mem_trace {d : Delivery} {s : World} {x : World × Effect}
    (hx : x ∈ (dispatch d.env d.event).trace s) :
    Persists s x.1 ∧ Permits d.env (branch s d.event) s x.1 x.2 :=
  Program.wp_trace (Program.wp_keeps (wp_dispatch d.env d.event s) (Persists.refl s)
    fun _ e h _ => h.apply e) x hx

/-- What every permitted effect keeps, a delivery keeps. -/
theorem Leads.keeps {d : Delivery} {s s' : World} (h : d.Leads s s') {I : World → Prop}
    (hI : I s)
    (keep : ∀ s₁ e, I s₁ → Permits d.env (branch s d.event) s s₁ e → I (e.apply s₁)) : I s' :=
  Program.wp_invariant (wp_dispatch d.env d.event s) hI keep s' h

end Delivery

/-- What the engines write while the orchestrator is between two events. -/
def ofEngine : Effect → Prop
  | .claimEntry _ | .ackEntry _ | .putResponse .. | .putArtifact .. | .clearWaitingTask _
  | .publish (.taskStarted _) | .publish (.taskCompleted _) | .publish (.taskFailed ..) => True
  | _ => False

/-- One step of the handlers, or of an engine beside them. -/
inductive Step (allowed : Delivery → World → Prop) : World → World → Prop
  | deliver {s s' : World} (d : Delivery) (ok : allowed d s) (h : d.Leads s s') :
      Step allowed s s'
  | engine {s : World} (e : Effect) (h : ofEngine e) : Step allowed s (e.apply s)

/-- The worlds reached by deliveries of any events, each allowed where it starts. -/
abbrev Run (allowed : Delivery → World → Prop) : World → World → Prop :=
  Relation.ReflTransGen (Step allowed)

/-- An effect that some delivery of a run performs. -/
inductive Performs (allowed : Delivery → World → Prop) (s₀ : World) : World → Effect → Prop
  | deliver {s : World} (run : Run allowed s₀ s) (d : Delivery) (ok : allowed d s)
      {x : World × Effect} (hx : x ∈ (dispatch d.env d.event).trace s) :
      Performs allowed s₀ x.1 x.2

/-- An engine writes no row. -/
theorem sameRows_of_engine {e : Effect} (h : ofEngine e) (s : World) : SameRows s (e.apply s) := by
  cases e <;> first | exact ⟨rfl, rfl⟩ | exact h.elim

theorem Step.run {allowed : Delivery → World → Prop} (d : Delivery) {s : World}
    (ok : allowed d s) : Step allowed s (d.run s) :=
  .deliver d ok (d.leads_run s)

/-- A move of a run without interruptions. -/
inductive Move
  | deliver (d : Delivery)
  | engine (e : Effect)

def Move.apply (s : World) : Move → World
  | deliver d => d.run s
  | engine e => e.apply s

/-- The delivered events satisfy `P`, and the other moves are an engine's. -/
def Move.Conforms (P : Delivery → Prop) : Move → Prop
  | deliver d => P d
  | engine e => ofEngine e

@[simp] theorem conforms_deliver {P : Delivery → Prop} {d : Delivery} :
    (Move.deliver d).Conforms P ↔ P d := Iff.rfl

@[simp] theorem conforms_engine {P : Delivery → Prop} {e : Effect} :
    (Move.engine e).Conforms P ↔ ofEngine e := Iff.rfl

/-- A sequence of moves is a run. -/
theorem run_of_moves {P : Delivery → Prop} (moves : List Move) (s : World)
    (h : ∀ m ∈ moves, m.Conforms P) : Run (fun d _ => P d) s (moves.foldl Move.apply s) := by
  induction moves generalizing s with
  | nil => exact Relation.ReflTransGen.refl
  | cons m moves ih =>
      have hstep : Step (fun d _ => P d) s (m.apply s) := by
        cases m with
        | deliver d => exact Step.run d (h (.deliver d) (by simp))
        | engine e => exact Step.engine e (h (.engine e) (by simp))
      exact Relation.ReflTransGen.head hstep (ih _ fun m hm => h m (by simp [hm]))

/-- A job as the gateway creates it. -/
def newJob (id : Uuid) (parameters : Config) : JobModel where
  id := id
  status := .pending
  parameters := parameters
  error := none
  startedAt := none
  completedAt := none
  audioFormat := none
  audioDuration := none
  audioSampleRate := none
  audioChannels := none
  audioBitDepth := none
  piiEntitiesDetected := none
  piiRedactedAudioUri := none

/-- The stores of a job that has just been submitted: its slot is taken and its
`job.created` event waits for a delivery. -/
def submitted (job : JobModel) : World where
  job := job
  tasks := .empty
  stream := []
  nextMessageId := 0
  retryKeys := []
  metadata := fun _ => none
  waitingTasks := []
  decremented := false
  concurrentJobs := 1
  slotReleases := 0
  cancelledFlag := false
  enrichments := []
  artifacts := []
  published := [.jobCreated]
  pending := [⟨0, .jobCreated⟩]
  nextEventId := 1
  requests := fun _ => none
  responses := fun _ => none
  transcript := none

section MonoJob

def prepareTask : Task :=
  pipelineTask [] 0 "prepare" "prepare" [] [] [] (some "s3://artifacts/audio.wav")

def transcribeTask : Task :=
  pipelineTask [] 1 "transcribe" "transcribe" [0] [audioInputBinding none]
    DEFAULT_TRANSCRIBE_CONFIG none

/-- The DAG of a mono job whose engine aligns its own words. -/
def monoDag : Dag where
  tasks := [prepareTask, transcribeTask]
  uniqueId := by decide
  uniqueStage := by decide
  pending := by simp [prepareTask, transcribeTask, pipelineTask, newTask]
  prepare := ⟨prepareTask, by simp, rfl, rfl⟩
  closed := by simp [prepareTask, transcribeTask, pipelineTask, newTask]
  pipeline := by
    simp [prepareTask, transcribeTask, pipelineTask, newTask, flag, DEFAULT_TRANSCRIBE_CONFIG,
      Dict.get?_cons]

/-- Surroundings that build the given DAG and know which tasks find their engine. -/
def sampleEnv (dag : Dag) (available : Uuid → Bool) : Env where
  now := 0
  settings := ⟨"fail_fast", 300, 1800⟩
  catalog := fun _ => none
  isEngineAvailable := fun id _ => available id
  errorDetails := fun _ _ => .null
  validConfig := fun _ _ => true
  buildTaskDag := fun _ => .ok dag
  assembleTranscript := fun _ _ _ => .ok []
  piiDetectId := 10
  audioRedactId := 11

/-- The artifact that the prepare stage produces. -/
def preparedAudio : ArtifactReference :=
  ⟨"0:prepared", "audio", "s3://artifacts/prepared.wav", none, some "prepared", some "prepare"⟩

/-- Deliver an event while every engine is available. -/
def Move.event (dag : Dag) (event : Event) : Move := .deliver ⟨sampleEnv dag fun _ => true, event⟩

/-- The moves that take a job from its submission to the end of its prepare stage. -/
def prepareMoves (dag : Dag) : List Move :=
  [Move.event dag .jobCreated, Move.event dag (.taskStarted 0),
    .engine (.putArtifact "0:prepared" preparedAudio), Move.event dag (.taskCompleted 0)]

/-- The moves that take a mono job to the end of its pipeline. -/
def pipelineMoves : List Move :=
  prepareMoves monoDag ++
    [Move.event monoDag (.taskStarted 1), Move.event monoDag (.taskCompleted 1)]

/-- A mono job that asks for PII detection. -/
def piiJob : World := submitted (newJob 0 [("pii_detection", .bool true)])

/-- The moves that complete the job and start its enrichment task. -/
def enrichmentMoves : List Move := pipelineMoves ++ [Move.event monoDag (.taskStarted 10)]

/-- The completed job, with its enrichment task running. -/
def enrichedJob : World := enrichmentMoves.foldl Move.apply piiJob

theorem run_enrichedJob : Run (fun _ _ => True) piiJob enrichedJob :=
  run_of_moves enrichmentMoves piiJob
    (by simp [enrichmentMoves, pipelineMoves, prepareMoves, Move.event, ofEngine])

/-- A mono job that asks for PII detection and for the redaction of its audio. -/
def redactJob : World :=
  submitted (newJob 0 [("pii_detection", .bool true), ("redact_pii_audio", .bool true)])

theorem engineFails_of_available {env : Env} {task : Task} (hcatalog : env.catalog = fun _ => none)
    (havailable : env.isEngineAvailable task.id task.engineId) : engineFails env task = false := by
  rw [engineFails, checkEngine_withBindings]
  simp only [checkEngine, hcatalog, Option.map_none, Option.getD_none, havailable]
  by_cases h : languageReadable task.config <;> simp [h]

end MonoJob

end Dalston.Orchestrator
