import Dalston.Orchestrator.EventLoop
import Dalston.Orchestrator.Writers

/-!
# Submission of a job

A submit request of the gateway makes its calls one after another: it uploads the audio,
commits the row of the job, and writes the `job.created` event, once as a broadcast and once
to the durable stream. Every call may fail, before or after it has had its effect, and the
process may die at any time, which ends the request. The orchestrator and the tenant act on
the job meanwhile.

## Implementation notes

The broadcast has no reader in the orchestrator, and the audit log swallows its errors. A
message whose handler has failed too often moves to the dead-letter stream, here at any
time. The lite mode, which has no event stream, is left out.
-/

namespace Dalston.Orchestrator.Submissions

open Foundation Model

/-- A call of a submit request, from the upload on. -/
inductive SubmitCall
  | uploadAudio
  | commitJob
  | refreshJob
  | logJobCreated
  | publish
  | addDurableEvent
  | checkConcurrentJobs
  | incrementConcurrentJobs
  deriving DecidableEq

/-- `publish_job_created`. -/
def publishJobCreated : List SubmitCall := [.publish, .addDurableEvent]

/-- `JobsService.create_job`. -/
def createJob : List SubmitCall := [.commitJob, .refreshJob]

/-- `create_transcription`, the native and the OpenAI-compatible path. -/
def createTranscription : List SubmitCall :=
  [.uploadAudio] ++ createJob ++ [.logJobCreated] ++ publishJobCreated ++
    [.incrementConcurrentJobs]

/-- The OpenAI-compatible translation. -/
def createTranslation : List SubmitCall :=
  [.uploadAudio] ++ createJob ++ publishJobCreated ++ [.incrementConcurrentJobs, .logJobCreated]

/-- `speech_to_text`, the ElevenLabs-compatible path. -/
def speechToText : List SubmitCall :=
  [.uploadAudio] ++ createJob ++ publishJobCreated ++
    [.checkConcurrentJobs, .incrementConcurrentJobs, .logJobCreated]

def submitPaths : List (List SubmitCall) := [createTranscription, createTranslation, speechToText]

/-- A request and what it has left behind. -/
structure Submission where
  /-- The calls that are still to be made. -/
  rest : List SubmitCall
  uploaded : Bool
  /-- The row of the job exists. -/
  committed : Bool
  audited : Bool
  stores : World
  /-- The dead-letter stream. -/
  buried : List Message

/-- The stores before the job's row is committed, with that row. -/
def unsubmitted (job : JobModel) : World :=
  { submitted job with concurrentJobs := 0, published := [], pending := [], nextEventId := 0 }

def Submission.start (path : List SubmitCall) (id : Uuid) (parameters : Config) : Submission where
  rest := path
  uploaded := false
  committed := false
  audited := false
  stores := unsubmitted (newJob id parameters)
  buried := []

/-- A call has its effect. -/
def Submission.land (s : Submission) : SubmitCall → Submission
  | .uploadAudio => { s with uploaded := true }
  | .commitJob => { s with committed := true }
  | .logJobCreated => { s with audited := true }
  | .addDurableEvent => { s with stores := (Effect.publish .jobCreated).apply s.stores }
  | .incrementConcurrentJobs =>
      { s with stores := { s.stores with concurrentJobs := s.stores.concurrentJobs + 1 } }
  | .refreshJob | .publish | .checkConcurrentJobs => s

/-- The call is made, and it has its effect or not. -/
def Submission.attempt (s : Submission) (call : SubmitCall) (landed : Bool) : Submission :=
  if landed then s.land call else s

/-- What the orchestrator and the tenant do with the job. -/
inductive JobStep : World → World → Prop
  | consume {w w' : World} (env : Env) (m : Message) (pending : m ∈ w.pending)
      (h : w' ∈ (processDurableEvent env m).cuts w) : JobStep w w'
  | engine {w : World} (e : Effect) (h : ofEngine e) : JobStep w (e.apply w)
  | scanner {w : World} (sweep : Sweep) (e : Effect) (h : (scan sweep).Offers e) :
      JobStep w (e.apply w)
  | reconciler {w : World} (sweep : Sweep) (e : Effect) (h : (reconcileTasks sweep).Offers e) :
      JobStep w (e.apply w)
  | stuckJob {w w' : World} (env : Env) (sweep : Sweep)
      (h : w' ∈ (reconcileStuckJob env sweep).cuts w) : JobStep w w'
  | cancel {w w' : World} (now : Time) (h : w' ∈ (cancelJob now).cuts w) : JobStep w w'

/-- A step of the request, or of the others once the row of the job exists. A request ends where
`mayEnd` allows it: a call fails, or its process dies, and the call has had its effect or not. -/
inductive SubmissionStep (mayEnd : SubmitCall → List SubmitCall → Bool → Prop) :
    Submission → Submission → Prop
  | call {s : Submission} {call : SubmitCall} {rest : List SubmitCall}
      (hrest : s.rest = call :: rest) :
      SubmissionStep mayEnd s { s.land call with rest := rest }
  | auditFails {s : Submission} {rest : List SubmitCall} (hrest : s.rest = .logJobCreated :: rest) :
      SubmissionStep mayEnd s { s with rest := rest }
  | ends {s : Submission} {call : SubmitCall} {rest : List SubmitCall} (landed : Bool)
      (hrest : s.rest = call :: rest) (ok : mayEnd call rest landed) :
      SubmissionStep mayEnd s { s.attempt call landed with rest := [] }
  | job {s : Submission} {w : World} (hcommitted : s.committed = true) (h : JobStep s.stores w) :
      SubmissionStep mayEnd s { s with stores := w }
  | bury {s : Submission} {m : Message} (hm : m ∈ s.stores.pending) :
      SubmissionStep mayEnd s
        { s with stores := (Effect.ackEvent m.id).apply s.stores, buried := s.buried ++ [m] }

abbrev SubmissionRun (mayEnd : SubmitCall → List SubmitCall → Bool → Prop) :
    Submission → Submission → Prop :=
  Relation.ReflTransGen (SubmissionStep mayEnd)

/-- The calls left, with the one that fails if it has not had its effect, are not those between
the commit of the row and the write of the durable event. -/
def EndsWell (call : SubmitCall) (rest : List SubmitCall) (landed : Bool) : Prop :=
  let left := if landed then rest else call :: rest
  .commitJob ∈ left ∨ .addDurableEvent ∉ left

/-- The `job.created` event is in the durable stream, or in the dead-letter stream. -/
def Submission.Recorded (s : Submission) : Prop :=
  ∃ m ∈ s.stores.pending ++ s.buried, m.event = .jobCreated

/-- A pass of the scanner or the reconciler starts or ends the job. -/
def Recovers (w : World) : Prop :=
  (∃ sweep, ((scan sweep).run w).2.job.status ≠ .pending) ∨
    ∃ env sweep, ((reconcile env sweep).run w).2.job.status ≠ .pending

/-- The request is over, its job has been committed, and nothing has started or ended it. -/
def Submission.LeftPending (s : Submission) : Prop :=
  s.rest = [] ∧ s.committed = true ∧ s.stores.job.status = .pending

section Pending

variable {w w' : World} {e : Effect}

/-- A pending job has no tasks. -/
def Untouched (w : World) : Prop := w.job.status = .pending → w.tasks.rows = []

/-- The effect does not make the job pending, and adds no enrichment to a pending job. -/
def Onward (w : World) : Effect → Prop
  | .finaliseJob status _ _ | .requestCancel status _ _ => status ≠ .pending
  | .saveEnrichmentTasks _ => w.job.status ≠ .pending
  | _ => True

/-- The job has not become pending, and has no tasks if it still is. -/
structure Later (w w' : World) : Prop where
  pending : w'.job.status = .pending → w.job.status = .pending
  untouched : Untouched w → Untouched w'

theorem Later.refl (w : World) : Later w w := ⟨id, id⟩

theorem Later.trans {w'' : World} (h : Later w w') (h' : Later w' w'') : Later w w'' :=
  ⟨fun hpending => h.pending (h'.pending hpending), fun huntouched => h'.untouched (h.untouched huntouched)⟩

theorem later_apply (h : Onward w e) : Later w (e.apply w) := by
  have hpending : (e.apply w).job.status = .pending → w.job.status = .pending := by
    intro hstatus
    rcases e.job_apply w with hjob | ⟨-, hsame⟩
    · rw [hjob] at hstatus
      cases e <;> first | exact hstatus | exact absurd hstatus h | cases hstatus
    · rwa [hsame] at hstatus
  refine ⟨hpending, fun huntouched hstatus => ?_⟩
  have hrows := huntouched (hpending hstatus)
  rw [e.rows_apply, hrows, List.map_nil, List.nil_append]
  cases e with
  | saveTasks tasks now =>
      by_cases hinsert : w.tasks.Insertable tasks
      · simp [Effect.apply, hinsert, Effect.updateJob] at hstatus
      · exact if_neg hinsert
  | saveEnrichmentTasks tasks => exact absurd (hpending hstatus) h
  | _ => rfl

theorem onward_of_permits {env : Env} {b : Branch} {s : World} (h : Permits env b s w e) :
    Onward w e := by
  cases e with
  | finaliseJob status error now =>
      obtain ⟨-, -, -, -, rfl | ⟨rfl, -⟩⟩ := h
      · exact JobStatus.noConfusion
      · exact JobStatus.noConfusion
  | requestCancel status ids now => exact h.elim
  | saveEnrichmentTasks tasks =>
      intro hpending
      have hterminal := h.2.1
      rw [hpending] at hterminal
      cases hterminal
  | _ => trivial

/-- Whatever a call is cut in, it has taken the job onward. -/
theorem later_of_cuts {A : Type} {p : Action A} {G : World → Effect → Prop}
    {Q : A → World → Prop} (h : p.wp G Q w) (hG : ∀ w₁ e, G w₁ e → Onward w₁ e) :
    ∀ w' ∈ p.cuts w, Later w w' :=
  Program.wp_invariant h (Later.refl w) fun w₁ e hw he => hw.trans (later_apply (hG w₁ e he))

end Pending

section Steps

variable {w w' : World}

/-- A `job.created` handler that returns has started or failed the job. -/
theorem started_of_returned (env : Env) (huntouched : Untouched w)
    (h : ((handleJobCreated env).run w).1 = .returned) :
    ((handleJobCreated env).run w).2.job.status ≠ .pending := by
  intro hstatus
  have hpending : w.job.status = .pending :=
    (later_of_cuts (wp_handleJobCreated rfl) (fun _ _ => onward_of_permits) _
      (Program.run_mem_cuts _ w)).pending hstatus
  have hrows := huntouched hpending
  have hstarted : (handleJobCreated env).wp (fun _ _ => True)
      (fun outcome w' => outcome = .returned → w'.job.status ≠ .pending) w := by
    simp only [handleJobCreated, buildJob, Program.wp_bind, wp_getWorld, hpending, wp_selectTasks,
      hrows, true_and]
    cases hdag : env.buildTaskDag w.job with
    | error e =>
        cases e with
        | rejected message =>
            simp only [failJobOnBuild, Program.wp_bind, wp_exec]
            refine ⟨trivial, wp_announceEnd_of (fun _ _ _ => trivial) fun w' hsame _ => ?_⟩
            rw [hsame.1]
            exact JobStatus.noConfusion
        | raised =>
            intro hreturned
            cases hreturned
    | ok dag =>
        simp only [saveDag, Program.wp_bind, Program.wp_perform, true_and]
        by_cases hinsert : w.tasks.Insertable (dagModels dag)
        · rw [if_pos hinsert]
          have hrunning : ((Effect.saveTasks (dagModels dag) env.now).apply w).job.status =
              .running := by
            simp [Effect.apply, hinsert, Effect.updateJob]
          have hsaved : ∀ t ∈ roots dag, Saved
              ((Effect.saveTasks (dagModels dag) env.now).apply w)
              (t.toModel "request_bindings") := by
            intro t ht
            apply saved_of_newRows
            rw [Effect.newRows, if_pos hinsert]
            exact List.mem_map_of_mem (List.mem_of_mem_filter ht)
          have hqueue := wp_queueRoots rfl hdag (AudioMetadata.ofJob w.job) (roots dag)
            (fun _ h => h) _ hrunning hsaved
          refine Program.wp_mono (Program.wp_keeps hqueue
            (I := fun w' => w'.job.status ≠ .pending)
            (ne_of_eq_of_ne hrunning JobStatus.noConfusion)
            fun w₁ e hstarted he => mt (later_apply (onward_of_permits he)).pending hstarted)
            (fun _ _ _ => trivial) fun _ _ hend _ => hend.1
        · -- without rows, no other orchestrator has inserted the tasks
          rw [if_neg hinsert, stageTaken, hrows]
          simp
  exact Program.wp_run hstarted h hstatus

/-- The `job.created` event waits in the durable stream. -/
def Noted (w : World) : Prop := ∃ m ∈ w.pending, m.event = .jobCreated

/-- What a step on the job's stores keeps: an event is taken away only when the job has been
started or ended. -/
structure Attended (w w' : World) : Prop extends Later w w' where
  mailbox : Mailbox w → Mailbox w'
  noted : Mailbox w → Untouched w → Noted w → w'.job.status = .pending → Noted w'

section Cuts

variable {A : Type} {p : Action A} {G : World → Effect → Prop} {Q : A → World → Prop}

/-- A call that acknowledges nothing takes no message away. -/
theorem pending_of_cuts (h : p.wp G Q w)
    (hack : ∀ w₁ e, G w₁ e → ∀ messageId, e ≠ .ackEvent messageId) (hw : w' ∈ p.cuts w)
    {m : Message} (hm : m ∈ w.pending) : m ∈ w'.pending :=
  Program.wp_invariant (I := fun w₁ => m ∈ w₁.pending) h hm
    (fun w₁ e hm he => pending_apply hm (hack w₁ e he)) w' hw

theorem attended_of_cuts (h : p.wp G Q w) (hG : ∀ w₁ e, G w₁ e → Onward w₁ e)
    (hack : ∀ w₁ e, G w₁ e → ∀ messageId, e ≠ .ackEvent messageId) (hw : w' ∈ p.cuts w) :
    Attended w w' := by
  refine ⟨later_of_cuts h hG w' hw, ?_, ?_⟩
  · intro hmailbox
    exact Program.wp_invariant h hmailbox (fun _ e hm _ => hm.apply e) w' hw
  · rintro - - ⟨m, hm, hcreated⟩ -
    exact ⟨m, pending_of_cuts h hack hw hm, hcreated⟩

end Cuts

theorem attended_apply {e : Effect} (h : Onward w e) (hack : ∀ messageId, e ≠ .ackEvent messageId) :
    Attended w (e.apply w) where
  toLater := later_apply h
  mailbox hmailbox := hmailbox.apply e
  noted := by
    rintro - - ⟨m, hm, hcreated⟩ -
    exact ⟨m, pending_apply hm hack, hcreated⟩

/-- Only the acknowledgement of its own message takes the event away. -/
theorem attended_of_consume {env : Env} {m : Message} (hm : m ∈ w.pending)
    (h : w' ∈ (processDurableEvent env m).cuts w) : Attended w w' := by
  have hwp := wp_dispatch env m.event w
  have hdispatch : ∀ w' ∈ (dispatch env m.event).cuts w, Attended w w' := fun w' =>
    attended_of_cuts hwp (fun _ _ => onward_of_permits) fun _ _ => not_ack_of_permits
  rcases cuts_processDurableEvent h with h | ⟨hreturned, rfl⟩
  · exact hdispatch w' h
  · have hrun := Program.run_mem_cuts (dispatch env m.event) w
    have hend := hdispatch _ hrun
    refine ⟨⟨hend.pending, hend.untouched⟩, fun hmailbox => (hend.mailbox hmailbox).apply _, ?_⟩
    intro hmailbox huntouched hnoted hstatus
    obtain ⟨n, hn, hcreated⟩ := hend.noted hmailbox huntouched hnoted hstatus
    refine ⟨n, List.mem_filter.mpr ⟨hn, decide_eq_true fun hid => ?_⟩, hcreated⟩
    have hsame := (hend.mailbox hmailbox).eq_of_id hn
      (pending_of_cuts hwp (fun _ _ => not_ack_of_permits) hrun hm) hid
    rw [← hsame, hcreated] at hreturned hstatus
    exact started_of_returned env huntouched hreturned hstatus

theorem attended_of_engine {e : Effect} (h : ofEngine e) : Attended w (e.apply w) := by
  refine attended_apply ?_ ?_
  · cases e <;> trivial
  · rintro messageId rfl
    exact h

theorem attended_of_scan {sweep : Sweep} {e : Effect} (h : (scan sweep).Offers e) :
    Attended w (e.apply w) := by
  have hscan := only_scan sweep e h
  refine attended_apply ?_ ?_
  · cases e <;> trivial
  · rintro messageId rfl
    exact hscan

theorem attended_of_reconcile {sweep : Sweep} {e : Effect} (h : (reconcileTasks sweep).Offers e) :
    Attended w (e.apply w) := by
  have hreconcile := only_reconcileTasks sweep e h
  refine attended_apply ?_ ?_
  · cases e <;> trivial
  · rintro messageId rfl
    exact hreconcile

theorem attended_of_stuckJob {env : Env} {sweep : Sweep}
    (h : w' ∈ (reconcileStuckJob env sweep).cuts w) : Attended w w' := by
  obtain ⟨b, -, -, hwp⟩ := wp_reconcileStuckJob env sweep w
  exact attended_of_cuts hwp (fun _ _ => onward_of_permits) (fun _ _ => not_ack_of_permits) h

/-- The effects of a cancellation. -/
def cancelling : Effect → Prop
  | .requestCancel status _ _ => status ≠ .pending
  | .read | .publish _ | .setDecremented | .decrConcurrentJobs | .resetConcurrentJobs => True
  | _ => False

theorem only_cancelJob (now : Time) : (cancelJob now).Only cancelling := by
  refine Program.only_bind (only_getWorld trivial) fun w => ?_
  split
  · refine Program.only_bind (only_exec ?_) fun _ => Program.only_bind (only_exec trivial) fun _ => ?_
    · unfold cancelStatus
      split
      · exact JobStatus.noConfusion
      · exact JobStatus.noConfusion
    · split
      · refine Program.only_perform_bind trivial fun before => ?_
        split
        · exact Program.only_done _
        · refine Program.only_perform_bind trivial fun before => ?_
          split
          · exact only_exec trivial
          · exact Program.only_done _
      · exact Program.only_done _
  · exact Program.only_done _

theorem attended_of_cancel {now : Time} (h : w' ∈ (cancelJob now).cuts w) : Attended w w' := by
  refine attended_of_cuts (Program.wp_of_only (only_cancelJob now) w) ?_ ?_ h
  · intro w₁ e he
    cases e <;> first | exact he | trivial
  · rintro w₁ e he messageId rfl
    exact he

theorem JobStep.attended (h : JobStep w w') : Attended w w' := by
  cases h with
  | consume env m hm h => exact attended_of_consume hm h
  | engine e h => exact attended_of_engine h
  | scanner sweep e h => exact attended_of_scan h
  | reconciler sweep e h => exact attended_of_reconcile h
  | stuckJob env sweep h => exact attended_of_stuckJob h
  | cancel now h => exact attended_of_cancel h

end Steps

section Requests

variable {mayEnd : SubmitCall → List SubmitCall → Bool → Prop} {s s' : Submission}
  {call : SubmitCall} {path rest : List SubmitCall}

/-- Once the job's row is committed, its event is recorded or still to be written. -/
structure Sound (s : Submission) : Prop where
  mailbox : Mailbox s.stores
  untouched : Untouched s.stores
  path : ∃ path ∈ submitPaths, s.rest <:+ path
  uncommitted : .commitJob ∈ s.rest → s.committed = false
  recorded : s.committed = true → s.stores.job.status = .pending →
    s.Recorded ∨ .addDurableEvent ∈ s.rest

theorem sound_start (hpath : path ∈ submitPaths) (id : Uuid) (parameters : Config) :
    Sound (Submission.start path id parameters) where
  mailbox := ⟨List.nodup_nil, fun _ hm => absurd hm List.not_mem_nil⟩
  untouched _ := rfl
  path := ⟨path, hpath, List.suffix_rfl⟩
  uncommitted _ := rfl
  recorded h := nomatch h

/-- On every path the row is committed once, before the durable event is written. -/
theorem order_of_path (hpath : path ∈ submitPaths) (hrest : .commitJob :: rest <:+ path) :
    .addDurableEvent ∈ rest ∧ .commitJob ∉ rest := by
  have hpaths : ∀ path ∈ submitPaths, ∀ left ∈ path.tails, left.head? = some .commitJob →
      .addDurableEvent ∈ left.tail ∧ .commitJob ∉ left.tail := by
    decide
  exact hpaths path hpath _ ((List.mem_tails _ _).mpr hrest) rfl

theorem Sound.tail (h : Sound s) (hrest : s.rest = call :: rest) :
    (∃ path ∈ submitPaths, rest <:+ path) ∧ (.commitJob ∈ rest → s.committed = false) := by
  obtain ⟨path, hpath, hsuffix⟩ := h.path
  rw [hrest] at hsuffix
  refine ⟨⟨path, hpath, (List.suffix_cons call rest).trans hsuffix⟩, fun hcommit => ?_⟩
  exact h.uncommitted (hrest ▸ List.mem_cons_of_mem _ hcommit)

/-- A call that is neither the commit nor the durable write leaves the event where it is. -/
theorem Sound.skip (h : Sound s) (hrest : s.rest = call :: rest)
    (hevent : call ≠ .addDurableEvent) : Sound { s with rest := rest } := by
  refine ⟨h.mailbox, h.untouched, (h.tail hrest).1, (h.tail hrest).2, ?_⟩
  intro hcommitted hpending
  refine (h.recorded hcommitted hpending).imp id fun hmem => ?_
  rw [hrest] at hmem
  exact (List.mem_cons.mp hmem).resolve_left fun heq => hevent heq.symm

/-- Each call of the request, with its effect. -/
theorem Sound.land (h : Sound s) (hrest : s.rest = call :: rest) :
    Sound { s.land call with rest := rest } := by
  obtain ⟨hpath, huncommitted⟩ := h.tail hrest
  cases call with
  | commitJob =>
      obtain ⟨path, hmem, hsuffix⟩ := h.path
      rw [hrest] at hsuffix
      obtain ⟨hevent, honce⟩ := order_of_path hmem hsuffix
      exact ⟨h.mailbox, h.untouched, hpath, fun hcommit => absurd hcommit honce,
        fun _ _ => Or.inr hevent⟩
  | addDurableEvent =>
      refine ⟨h.mailbox.apply (.publish .jobCreated), h.untouched, hpath, huncommitted,
        fun _ _ => Or.inl ?_⟩
      exact ⟨⟨s.stores.nextEventId, .jobCreated⟩, by simp [Submission.land, Effect.apply], rfl⟩
  | _ =>
      have hskip := h.skip hrest SubmitCall.noConfusion
      exact ⟨⟨hskip.mailbox.unique, hskip.mailbox.below⟩, hskip.untouched, hpath, huncommitted,
        hskip.recorded⟩

/-- The request ends, and nothing is left to be written. -/
theorem Sound.quit (h : Sound s) (hend : .commitJob ∈ s.rest ∨ .addDurableEvent ∉ s.rest) :
    Sound { s with rest := [] } := by
  refine ⟨h.mailbox, h.untouched, ?_, fun hcommit => absurd hcommit List.not_mem_nil, ?_⟩
  · obtain ⟨path, hpath, -⟩ := h.path
    exact ⟨path, hpath, List.nil_suffix⟩
  · intro hcommitted hpending
    left
    rcases hend with hcommit | hevent
    · exact absurd hcommitted (by rw [h.uncommitted hcommit]; exact Bool.false_ne_true)
    · exact (h.recorded hcommitted hpending).resolve_right hevent

/-- What happens to the job meanwhile. -/
theorem Sound.job {w : World} (h : Sound s) (hstep : JobStep s.stores w) :
    Sound { s with stores := w } := by
  have hattended := hstep.attended
  refine ⟨hattended.mailbox h.mailbox, hattended.untouched h.untouched, h.path, h.uncommitted, ?_⟩
  intro hcommitted hpending
  refine (h.recorded hcommitted (hattended.pending hpending)).imp ?_ id
  rintro ⟨m, hm, hcreated⟩
  rcases List.mem_append.mp hm with hm | hm
  · obtain ⟨n, hn, hcreated⟩ :=
      hattended.noted h.mailbox h.untouched ⟨m, hm, hcreated⟩ hpending
    exact ⟨n, List.mem_append_left _ hn, hcreated⟩
  · exact ⟨m, List.mem_append_right _ hm, hcreated⟩

theorem Sound.bury (h : Sound s) {m : Message} (hm : m ∈ s.stores.pending) :
    Sound { s with
      stores := (Effect.ackEvent m.id).apply s.stores, buried := s.buried ++ [m] } := by
  refine ⟨h.mailbox.apply (.ackEvent m.id), h.untouched, h.path, h.uncommitted, ?_⟩
  intro hcommitted hpending
  refine (h.recorded hcommitted hpending).imp ?_ id
  rintro ⟨n, hn, hcreated⟩
  refine ⟨n, ?_, hcreated⟩
  rcases List.mem_append.mp hn with hn | hn
  · by_cases hid : n.id = m.id
    · rw [h.mailbox.eq_of_id hn hm hid]
      simp
    · exact List.mem_append_left _ (List.mem_filter.mpr ⟨hn, decide_eq_true hid⟩)
  · simp [hn]

theorem Sound.step (h : Sound s) (hstep : SubmissionStep EndsWell s s') : Sound s' := by
  cases hstep with
  | call hrest => exact h.land hrest
  | auditFails hrest => exact h.skip hrest SubmitCall.noConfusion
  | ends landed hrest ok =>
      cases landed with
      | true => exact (h.land hrest).quit ok
      | false => exact h.quit (hrest ▸ ok)
  | job hcommitted hjob => exact h.job hjob
  | bury hm => exact h.bury hm

end Requests

section Passes

variable {w : World}

/-- Neither pass looks at a pending job. -/
theorem not_recovers (h : w.job.status = .pending) : ¬ Recovers w := by
  rintro (⟨sweep, hscan⟩ | ⟨env, sweep, hreconcile⟩)
  · have hkept := Program.wp_run (Program.wp_only_keeps (I := fun w' => w'.job = w.job)
      (only_scan sweep) rfl fun w' e hw he => by cases e <;> first | exact hw | exact he.elim)
    exact hscan (hkept ▸ h)
  · have hkept : (reconcileTasks sweep).wp (fun _ _ => True) (fun _ w' => w'.job = w.job) w :=
      Program.wp_only_keeps (only_reconcileTasks sweep) rfl
        fun w' e hw he => by cases e <;> first | exact hw | exact he.elim
    have hpass : (reconcile env sweep).wp (fun _ _ => True) (fun _ w' => w'.job = w.job) w := by
      simp only [reconcile, Program.wp_bind]
      refine Program.wp_post hkept fun _ w' hw => ?_
      simp only [reconcileStuckJob, Program.wp_bind, wp_getWorld, hw, h, true_and]
      exact hw
    exact hreconcile (Program.wp_run hpass ▸ h)

end Passes

section Main

variable {s : Submission} {path : List SubmitCall} {id : Uuid} {parameters : Config}

/-- Unless a request ends between the commit of the row and the write of the durable event, a job
that is left pending has a `job.created` event in the durable stream, or in the dead-letter
stream. -/
theorem leftPending_recorded (hpath : path ∈ submitPaths)
    (hrun : SubmissionRun EndsWell (Submission.start path id parameters) s)
    (hleft : s.LeftPending) : s.Recorded ∨ Recovers s.stores := by
  have hsound : Sound s := by
    clear hleft
    induction hrun with
    | refl => exact sound_start hpath id parameters
    | tail _ hstep ih => exact ih.step hstep
  obtain ⟨hrest, hcommitted, hpending⟩ := hleft
  refine Or.inl ((hsound.recorded hcommitted hpending).resolve_right ?_)
  rw [hrest]
  exact List.not_mem_nil

/-- The next call of the request, with its effect. -/
def Submission.next (s : Submission) : Submission :=
  match s.rest with
  | [] => s
  | call :: rest => { s.land call with rest := rest }

theorem run_next {mayEnd : SubmitCall → List SubmitCall → Bool → Prop} (calls : Nat) :
    SubmissionRun mayEnd s (Submission.next^[calls] s) := by
  induction calls with
  | zero => exact Relation.ReflTransGen.refl
  | succ calls ih =>
      rw [Function.iterate_succ_apply']
      generalize Submission.next^[calls] s = s' at ih
      cases hrest : s'.rest with
      | nil => simpa only [Submission.next, hrest] using ih
      | cons call rest =>
          have hstep : SubmissionStep mayEnd s' s'.next := by
            simpa only [Submission.next, hrest] using SubmissionStep.call hrest
          exact ih.tail hstep

/-- A request that makes all of its calls. -/
theorem accepted_recorded :
    (Submission.next^[7] (Submission.start createTranscription 1 [])).Recorded ∨
      Recovers (Submission.next^[7] (Submission.start createTranscription 1 [])).stores :=
  leftPending_recorded (by simp [submitPaths]) (run_next 7) ⟨rfl, rfl, rfl⟩

/-- The gateway dies right after the commit of the job's row. -/
theorem committed_unrecorded : ¬ ∀ path ∈ submitPaths, ∀ id parameters s,
    SubmissionRun (fun _ _ _ => True) (Submission.start path id parameters) s →
      s.LeftPending → s.Recorded ∨ Recovers s.stores := by
  intro h
  let s := Submission.next^[2] (Submission.start createTranscription 1 [])
  have hrun : SubmissionRun (fun _ _ _ => True) (Submission.start createTranscription 1 [])
      { s with rest := [] } :=
    (run_next 2).tail (.ends false rfl trivial)
  rcases h createTranscription (by simp [submitPaths]) 1 [] _ hrun ⟨rfl, rfl, rfl⟩ with
    ⟨m, hm, -⟩ | hrecovers
  · exact absurd hm List.not_mem_nil
  · exact not_recovers rfl hrecovers

end Main

end Dalston.Orchestrator.Submissions
