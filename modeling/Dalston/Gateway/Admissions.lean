import Dalston.Gateway.JobLimit

/-!
# The counter against the open jobs

A submission that has passed its check and is not counted yet is invisible to the
next check, a status written without a look at the row may reopen a job that has
ended, and a decrement that comes before its increment is lost to the clamp.
Where none of the three happens, the counter of a tenant at rest is the number of
its open jobs, and there are never more of them than the limit.

## Implementation notes

Every job that has ended has its guard key set, or a call is about to set it.
So the open jobs are the created ones without those whose guard is set, up to
the calls that owe an increment or a decrement.
-/

namespace Dalston.Gateway

open Foundation Model

/-- The job has a final status. -/
def ended (s : LimitStore) (job : JobId) : Bool := (s.status job).any JobStatus.terminal

/-- The submission has passed its check and is not counted yet. -/
def inFlight (t : LimitThread) : Bool :=
  match t.rest.next? with
  | some .createJob | some (.publishJobCreated _) | some .incr => true
  | _ => false

/-- Jobs are submitted, and published ones are handled, in any way and any number of times. -/
def AnyHandling (pool : LimitPool) : Turn LimitCall LimitEffect → Prop
  | .start (.created job _) => job ∈ pool.store.published
  | .start _ | .move _ => True
  | .fail _ | .outside _ => False

/-- A check that passes would also pass if the submissions under way were counted, a job
that has ended stays so, and a decrement finds something to decrement. -/
def CountsRight (maxConcurrentJobs : Nat) (pool : LimitPool) (n : Nat) : LimitEffect → Prop
  | .getCounter =>
      pool.store.concurrentJobs < maxConcurrentJobs →
        pool.store.concurrentJobs + (pool.threads.eraseIdx n).countP inFlight < maxConcurrentJobs
  | .commitStatus job status => ended pool.store job = true → status.terminal = true
  | .decr => 0 < pool.store.concurrentJobs
  | _ => True

def Counted (maxConcurrentJobs : Nat) (pool : LimitPool) : Turn LimitCall LimitEffect → Prop
  | .move n => ∀ e ∈ pool.next? n, CountsRight maxConcurrentJobs pool n e
  | turn => AnyHandling pool turn

instance (pool : LimitPool) : ∀ turn, Decidable (AnyHandling pool turn)
  | .start (.created job _) => inferInstanceAs (Decidable (job ∈ pool.store.published))
  | .start .submit | .start (.failed _) | .start (.unavailable _) | .start (.completed _ _)
  | .start (.cancelled _ _) | .start (.cancel _ _) | .move _ => isTrue trivial
  | .fail _ | .outside _ => isFalse id

instance (maxConcurrentJobs : Nat) (pool : LimitPool) (n : Nat) :
    ∀ e, Decidable (CountsRight maxConcurrentJobs pool n e)
  | .getCounter => inferInstanceAs (Decidable (_ → _ < _))
  | .commitStatus _ _ => inferInstanceAs (Decidable (_ → _ = _))
  | .decr => inferInstanceAs (Decidable (0 < _))
  | .createJob | .publishJobCreated _ | .incr | .selectJob _ | .setGuard _ | .setZero =>
      isTrue trivial

instance (maxConcurrentJobs : Nat) (pool : LimitPool) :
    ∀ turn, Decidable (Counted maxConcurrentJobs pool turn)
  | .move n => inferInstanceAs (Decidable (∀ e ∈ pool.next? n, CountsRight maxConcurrentJobs pool n e))
  | .start c => inferInstanceAs (Decidable (AnyHandling pool (.start c)))
  | .fail _ | .outside _ => isFalse id

/-- What a call has still to do about the counter. -/
inductive Errand
  | asking
  | admitted
  /-- The job is created and not counted. -/
  | created (job : JobId)
  | reading (job : JobId)
  /-- The job's row exists. -/
  | knows (job : JobId)
  /-- The job has ended, and its guard key is set next. -/
  | closing (job : JobId)
  /-- The guard key is set, and the decrement comes next. -/
  | owes
  | clamping
  | done

namespace Errand

def admits : Errand → Bool
  | admitted => true
  | _ => false

def uncounted : Errand → Bool
  | created _ => true
  | _ => false

def owing : Errand → Bool
  | owes => true
  | _ => false

/-- The call may return. -/
def atRest : Errand → Bool
  | done | knows _ => true
  | _ => false

end Errand

/-- How a call moves. -/
inductive ErrandMove (maxConcurrentJobs : Nat) :
    Errand → LimitStore → LimitEffect → Errand → Prop
  | allow (s : LimitStore) (h : s.concurrentJobs < maxConcurrentJobs) :
      ErrandMove maxConcurrentJobs .asking s .getCounter .admitted
  | deny (s : LimitStore) : ErrandMove maxConcurrentJobs .asking s .getCounter .done
  | create (s : LimitStore) : ErrandMove maxConcurrentJobs .admitted s .createJob (.created s.nextId)
  | publish (s : LimitStore) (job : JobId) :
      ErrandMove maxConcurrentJobs (.created job) s (.publishJobCreated job) (.created job)
  | count (s : LimitStore) (job : JobId) :
      ErrandMove maxConcurrentJobs (.created job) s .incr .done
  | missing (s : LimitStore) (job : JobId) :
      ErrandMove maxConcurrentJobs (.reading job) s (.selectJob job) .done
  | found (s : LimitStore) (job : JobId) (h : (s.status job).isSome) :
      ErrandMove maxConcurrentJobs (.reading job) s (.selectJob job) (.knows job)
  | foundEnded (s : LimitStore) (job : JobId) (h : ended s job = true) :
      ErrandMove maxConcurrentJobs (.reading job) s (.selectJob job) (.closing job)
  | keepOpen (s : LimitStore) (job : JobId) (status : JobStatus) (h : status.terminal = false) :
      ErrandMove maxConcurrentJobs (.knows job) s (.commitStatus job status) (.knows job)
  | close (s : LimitStore) (job : JobId) (status : JobStatus) (h : status.terminal = true) :
      ErrandMove maxConcurrentJobs (.knows job) s (.commitStatus job status) (.closing job)
  | guard (s : LimitStore) (job : JobId) (h : s.decremented job = false) :
      ErrandMove maxConcurrentJobs (.closing job) s (.setGuard job) .owes
  | guarded (s : LimitStore) (job : JobId) (h : s.decremented job = true) :
      ErrandMove maxConcurrentJobs (.closing job) s (.setGuard job) .done
  | decrement (s : LimitStore) (h : 0 < s.concurrentJobs) :
      ErrandMove maxConcurrentJobs .owes s .decr .done
  | overdraw (s : LimitStore) (h : s.concurrentJobs ≤ 0) :
      ErrandMove maxConcurrentJobs .owes s .decr .clamping
  | clamp (s : LimitStore) : ErrandMove maxConcurrentJobs .clamping s .setZero .done

def errandStart : LimitCall → Errand
  | .submit => .asking
  | .created job _ | .failed job | .unavailable job | .completed job _ | .cancelled job _
  | .cancel job _ => .reading job

section Protocol

variable {maxConcurrentJobs : Nat}

/-- From its local state the program follows the protocol, and it may return where it ends. -/
abbrev Runs {A : Type} (maxConcurrentJobs : Nat) (p : LimitOp A) (l : Errand) : Prop :=
  p.Follows (ErrandMove maxConcurrentJobs) (fun _ => True) (fun _ l => l.atRest = true) l

theorem runs_decrementConcurrentJobs (job : JobId) :
    Runs maxConcurrentJobs (decrementConcurrentJobs job) (.closing job) := by
  apply Program.follows_perform_bind.mpr
  intro s _
  cases hguard : s.decremented job with
  | true => exact ⟨_, .guarded s job hguard, rfl⟩
  | false =>
      refine ⟨_, .guard s job hguard, ?_⟩
      rw [if_neg Bool.false_ne_true]
      apply Program.follows_perform_bind.mpr
      intro s' _
      simp only [clampConcurrentJobs]
      by_cases hpos : 0 < s'.concurrentJobs
      · refine ⟨_, .decrement s' hpos, ?_⟩
        rw [if_neg (by omega)]
        rfl
      · refine ⟨_, .overdraw s' (not_lt.mp hpos), ?_⟩
        rw [if_pos (by omega)]
        intro s'' _
        exact ⟨_, .clamp s'', rfl⟩

theorem runs_closeJob (job : JobId) {status : JobStatus} (h : status.terminal = true) :
    Runs maxConcurrentJobs (closeJob job status) (.knows job) := by
  intro s _
  exact ⟨_, .close s job status h, runs_decrementConcurrentJobs job⟩

theorem runs_keepOpen {A : Type} (job : JobId) {status : JobStatus} (h : status.terminal = false)
    {next : LimitOp A} (hnext : Runs maxConcurrentJobs next (.knows job)) :
    Runs maxConcurrentJobs (execute (.commitStatus job status) >>= fun _ => next) (.knows job) := by
  intro s _
  exact ⟨_, .keepOpen s job status h, hnext⟩

/-- A handler goes on from the status it has read. -/
theorem runs_select {A : Type} {job : JobId} {f : Option JobStatus → LimitOp A}
    (hnone : Runs maxConcurrentJobs (f none) .done)
    (hsome : ∀ status, Runs maxConcurrentJobs (f (some status)) (.knows job) ∨
      status.terminal = true ∧ Runs maxConcurrentJobs (f (some status)) (.closing job)) :
    Runs maxConcurrentJobs (Program.perform (.selectJob job) >>= fun s => f (s.status job))
      (.reading job) := by
  apply Program.follows_perform_bind.mpr
  intro s _
  rcases hstatus : s.status job with _ | status
  · exact ⟨_, .missing s job, hnone⟩
  · rcases hsome status with hknows | ⟨hterminal, hcloses⟩
    · exact ⟨_, .found s job (by simp [hstatus]), hknows⟩
    · exact ⟨_, .foundEnded s job (by simp [ended, hstatus, hterminal]), hcloses⟩

theorem runs_createTasks (job : JobId) (creation : Creation) :
    Runs maxConcurrentJobs (createTasks job creation) (.knows job) := by
  cases creation with
  | «exists» => rfl
  | refused => exact runs_closeJob job rfl
  | started =>
      intro s _
      exact ⟨_, .keepOpen s job .running rfl, rfl⟩
  | unavailable => exact runs_keepOpen job rfl (runs_closeJob job rfl)

theorem runs_handleJobCreated (job : JobId) (creation : Creation) :
    Runs maxConcurrentJobs (handleJobCreated job creation) (.reading job) := by
  apply runs_select
  · rfl
  · intro status
    left
    cases status <;> first | rfl | exact runs_createTasks job creation

theorem runs_ensureJobFailed (job : JobId) :
    Runs maxConcurrentJobs (ensureJobFailed job) (.reading job) := by
  apply runs_select
  · rfl
  · intro status
    cases status with
    | failed | cancelled => exact Or.inr ⟨rfl, runs_decrementConcurrentJobs job⟩
    | pending | running | completed | cancelling => exact Or.inl (runs_closeJob job rfl)

theorem runs_failUnavailable (job : JobId) :
    Runs maxConcurrentJobs (failUnavailable job) (.reading job) := by
  apply runs_select
  · rfl
  · exact fun status => Or.inl (runs_closeJob job rfl)

theorem runs_checkJobCompletion (job : JobId) (anyFailed : Bool) :
    Runs maxConcurrentJobs (checkJobCompletion job anyFailed) (.reading job) := by
  apply runs_select
  · rfl
  · intro status
    left
    cases status with
    | completed | failed | cancelled => rfl
    | pending | running | cancelling =>
        apply runs_closeJob
        cases anyFailed <;> rfl

theorem runs_checkJobCancellationComplete (job : JobId) (running : Bool) :
    Runs maxConcurrentJobs (checkJobCancellationComplete job running) (.reading job) := by
  apply runs_select
  · rfl
  · intro status
    left
    cases status with
    | cancelling =>
        cases running with
        | true => rfl
        | false => exact runs_closeJob job rfl
    | pending | running | completed | failed | cancelled => rfl

theorem runs_cancelJob (job : JobId) (running : Bool) :
    Runs maxConcurrentJobs (cancelJob job running) (.reading job) := by
  apply runs_select
  · rfl
  · intro status
    left
    cases status with
    | pending | running =>
        cases running with
        | true =>
            intro s _
            exact ⟨_, .keepOpen s job .cancelling rfl, rfl⟩
        | false => exact runs_closeJob job rfl
    | completed | failed | cancelling | cancelled => rfl

theorem runs_createTranscription :
    Runs maxConcurrentJobs createTranscription .admitted := by
  intro s _
  refine ⟨_, .create s, ?_⟩
  intro s' _
  refine ⟨_, .publish s' _, ?_⟩
  intro s'' _
  exact ⟨_, .count s'' _, rfl⟩

theorem runs_submit : Runs maxConcurrentJobs (submit maxConcurrentJobs) .asking := by
  intro s _
  by_cases hroom : s.concurrentJobs < maxConcurrentJobs
  · refine ⟨_, .allow s hroom, ?_⟩
    have hcheck : decide (s.concurrentJobs < maxConcurrentJobs) = true := decide_eq_true hroom
    change Runs maxConcurrentJobs (if decide _ = true then createTranscription else _) .admitted
    rw [if_pos hcheck]
    exact runs_createTranscription
  · refine ⟨_, .deny s, ?_⟩
    have hcheck : ¬ decide (s.concurrentJobs < maxConcurrentJobs) = true := by simpa using hroom
    change Runs maxConcurrentJobs (if decide _ = true then createTranscription else _) .done
    rw [if_neg hcheck]
    rfl

theorem runs_handled {p : LimitOp Unit} {l : Errand} (h : Runs maxConcurrentJobs p l) :
    Runs maxConcurrentJobs (handled p) l :=
  Program.follows_bind.mpr (Program.follows_mono h fun _ _ hl => hl)

theorem runs_code (c : LimitCall) :
    Runs maxConcurrentJobs (c.code maxConcurrentJobs) (errandStart c) := by
  cases c with
  | submit => exact runs_submit
  | created job creation => exact runs_handled (runs_handleJobCreated job creation)
  | failed job => exact runs_handled (runs_ensureJobFailed job)
  | unavailable job => exact runs_handled (runs_failUnavailable job)
  | completed job anyFailed => exact runs_handled (runs_checkJobCompletion job anyFailed)
  | cancelled job running => exact runs_handled (runs_checkJobCancellationComplete job running)
  | cancel job running => exact runs_handled (runs_cancelJob job running)

end Protocol

abbrev Runner := Local LimitCall LimitStore Errand

/-- The submissions that have passed their check and have not created their job. -/
def admitting (gs : Multiset Runner) : Nat := gs.countP fun g => g.state.admits

/-- The submissions that owe an increment. -/
def counting (gs : Multiset Runner) : Nat := gs.countP fun g => g.state.uncounted

/-- The calls that owe a decrement. -/
def owing (gs : Multiset Runner) : Nat := gs.countP fun g => g.state.owing

/-- The number of jobs whose guard key is set. -/
def guardedJobs (s : LimitStore) : Nat := countBelow s.nextId s.decremented

def Errand.Sound (s : LimitStore) : Errand → Prop
  | .knows job => (s.status job).isSome
  | .closing job => ended s job = true
  | .clamping => False
  | .asking | .admitted | .created _ | .reading _ | .owes | .done => True

/-- The counter against the jobs and the calls. -/
structure Tally (maxConcurrentJobs : Nat) (s : LimitShared) (gs : Multiset Runner) : Prop where
  rows : ∀ job, (s.store.status job).isSome ↔ job < s.store.nextId
  guarded : ∀ job, s.store.decremented job = true → ended s.store job = true
  unguarded : ∀ job, ended s.store job = true → s.store.decremented job = false →
    ∃ g ∈ gs, g.state = .closing job
  balance : s.store.concurrentJobs + counting gs + guardedJobs s.store =
    s.store.nextId + owing gs
  room : openJobs s.store + admitting gs ≤ maxConcurrentJobs
  sound : ∀ g ∈ gs, g.state.Sound s.store

section Tally

variable {maxConcurrentJobs : Nat} {s : LimitShared} {e : LimitEffect} {job : JobId} {l : Errand}
  {g : Runner} {gs : Multiset Runner}

theorem admitting_cons : admitting (g ::ₘ gs) = g.state.admits.toNat + admitting gs := by
  cases h : g.state.admits <;> simp [admitting, h, add_comm]

theorem counting_cons : counting (g ::ₘ gs) = g.state.uncounted.toNat + counting gs := by
  cases h : g.state.uncounted <;> simp [counting, h, add_comm]

theorem owing_cons : owing (g ::ₘ gs) = g.state.owing.toNat + owing gs := by
  cases h : g.state.owing <;> simp [owing, h, add_comm]

theorem isSome_of_ended (h : ended s.store job = true) : (s.store.status job).isSome := by
  rcases hstatus : s.store.status job with _ | status
  · simp [ended, hstatus] at h
  · rfl

/-- The jobs are the open ones and the ones that have ended. -/
theorem openJobs_add_ended (h : ∀ job, (s.store.status job).isSome ↔ job < s.store.nextId) :
    openJobs s.store + countBelow s.store.nextId (ended s.store) = s.store.nextId := by
  have hopen : openJobs s.store = countBelow s.store.nextId fun job => !ended s.store job := by
    apply countBelow_congr
    intro job hjob
    obtain ⟨status, hstatus⟩ := Option.isSome_iff_exists.mp ((h job).mpr hjob)
    simp [ended, hstatus]
  rw [hopen, add_comm]
  exact countBelow_not

theorem Tally.guarded_le (h : Tally maxConcurrentJobs s gs) :
    openJobs s.store + guardedJobs s.store ≤ s.store.nextId := by
  have hsplit := openJobs_add_ended h.rows
  have hle : guardedJobs s.store ≤ countBelow s.store.nextId (ended s.store) :=
    countBelow_le fun job _ => h.guarded job
  omega

/-- What a call knows stays true when rows stay and ended jobs stay ended. -/
theorem Errand.Sound.mono {store store' : LimitStore} (h : l.Sound store)
    (hrows : ∀ job, (store.status job).isSome → (store'.status job).isSome)
    (hended : ∀ job, ended store job = true → ended store' job = true) : l.Sound store' := by
  cases l with
  | knows job => exact hrows job h
  | closing job => exact hended job h
  | clamping => exact h
  | asking | admitted | created _ | reading _ | owes | done => trivial

/-- A call moves on: its own part of the tally is all there is to check. -/
theorem Tally.moved (h : Tally maxConcurrentJobs s (g ::ₘ gs))
    (hrows : ∀ job, ((s.perform e).store.status job).isSome ↔ job < (s.perform e).store.nextId)
    (hnext : s.store.nextId ≤ (s.perform e).store.nextId)
    (hended : ∀ job, ended s.store job = true → ended (s.perform e).store job = true)
    (hguarded : ∀ job, (s.perform e).store.decremented job = true →
      ended (s.perform e).store job = true)
    (hclosing : ∀ job, ended (s.perform e).store job = true →
      (s.perform e).store.decremented job = false → l = .closing job ∨
        g.state ≠ .closing job ∧ ended s.store job = true ∧ s.store.decremented job = false)
    (hbalance : (s.perform e).store.concurrentJobs + l.uncounted.toNat + counting gs +
      guardedJobs (s.perform e).store = (s.perform e).store.nextId + l.owing.toNat + owing gs)
    (hroom : openJobs (s.perform e).store + l.admits.toNat + admitting gs ≤ maxConcurrentJobs)
    (hsound : l.Sound (s.perform e).store) :
    Tally maxConcurrentJobs (s.perform e) ({ g with state := l } ::ₘ gs) := by
  constructor
  case rows => exact hrows
  case guarded => exact hguarded
  case unguarded =>
    intro job hjob hopen
    rcases hclosing job hjob hopen with hl | ⟨hne, hjob', hopen'⟩
    · exact ⟨_, Multiset.mem_cons_self _ _, hl⟩
    · obtain ⟨g', hg', hstate⟩ := h.unguarded job hjob' hopen'
      rcases Multiset.mem_cons.mp hg' with rfl | hg'
      · exact absurd hstate hne
      · exact ⟨g', Multiset.mem_cons_of_mem hg', hstate⟩
  case balance =>
    have hcounting : counting ({ g with state := l } ::ₘ gs) = l.uncounted.toNat + counting gs :=
      counting_cons
    have howing : owing ({ g with state := l } ::ₘ gs) = l.owing.toNat + owing gs := owing_cons
    omega
  case room =>
    have hadmitting : admitting ({ g with state := l } ::ₘ gs) = l.admits.toNat + admitting gs :=
      admitting_cons
    omega
  case sound =>
    intro g' hg'
    rcases Multiset.mem_cons.mp hg' with rfl | hg'
    · exact hsound
    · apply (h.sound g' (Multiset.mem_cons_of_mem hg')).mono _ hended
      intro job hjob
      exact (hrows job).mpr (Nat.lt_of_lt_of_le ((h.rows job).mp hjob) hnext)

theorem Tally.balance_cons (h : Tally maxConcurrentJobs s (g ::ₘ gs)) :
    s.store.concurrentJobs + g.state.uncounted.toNat + counting gs + guardedJobs s.store =
      s.store.nextId + g.state.owing.toNat + owing gs := by
  have := h.balance
  rw [counting_cons, owing_cons] at this
  push_cast at this
  omega

theorem Tally.room_cons (h : Tally maxConcurrentJobs s (g ::ₘ gs)) :
    openJobs s.store + g.state.admits.toNat + admitting gs ≤ maxConcurrentJobs := by
  have := h.room
  rw [admitting_cons] at this
  omega

/-- A call moves on and changes neither the jobs nor the counter. -/
theorem Tally.looked (h : Tally maxConcurrentJobs s (g ::ₘ gs))
    (hsame : (s.perform e).store.nextId = s.store.nextId ∧
      (s.perform e).store.status = s.store.status ∧
      (s.perform e).store.concurrentJobs = s.store.concurrentJobs ∧
      (s.perform e).store.decremented = s.store.decremented)
    (hcounted : l.uncounted = g.state.uncounted) (howing : l.owing = g.state.owing)
    (hnot : ∀ job, g.state ≠ .closing job)
    (hroom : openJobs s.store + l.admits.toNat + admitting gs ≤ maxConcurrentJobs)
    (hsound : l.Sound s.store) :
    Tally maxConcurrentJobs (s.perform e) ({ g with state := l } ::ₘ gs) := by
  obtain ⟨hnext, hstatus, hcounter, hguard⟩ := hsame
  have hended (job : JobId) : ended (s.perform e).store job = ended s.store job := by
    simp [ended, hstatus]
  have hopen : openJobs (s.perform e).store = openJobs s.store := by
    simp [openJobs, hstatus, hnext]
  have hguarded : guardedJobs (s.perform e).store = guardedJobs s.store := by
    simp [guardedJobs, hguard, hnext]
  apply h.moved
  · rw [hstatus, hnext]
    exact h.rows
  · rw [hnext]
  · exact fun job hjob => (hended job).trans hjob
  · intro job hjob
    rw [hguard] at hjob
    exact (hended job).trans (h.guarded job hjob)
  · intro job hjob hopen
    rw [hguard] at hopen
    exact Or.inr ⟨hnot job, (hended job).symm.trans hjob, hopen⟩
  · rw [hcounter, hguarded, hnext, hcounted, howing]
    exact h.balance_cons
  · rw [hopen]
    exact hroom
  · apply hsound.mono
    · intro job hjob
      rwa [hstatus]
    · exact fun job hjob => (hended job).trans hjob

/-- The tally of a call that is neither admitted nor closing. -/
theorem Tally.passed (h : Tally maxConcurrentJobs s (g ::ₘ gs))
    (hsame : (s.perform e).store.nextId = s.store.nextId ∧
      (s.perform e).store.status = s.store.status ∧
      (s.perform e).store.concurrentJobs = s.store.concurrentJobs ∧
      (s.perform e).store.decremented = s.store.decremented)
    (hcounted : l.uncounted = g.state.uncounted) (howing : l.owing = g.state.owing)
    (hnot : ∀ job, g.state ≠ .closing job) (hadmits : l.admits = false)
    (hsound : l.Sound s.store) :
    Tally maxConcurrentJobs (s.perform e) ({ g with state := l } ::ₘ gs) := by
  apply h.looked hsame hcounted howing hnot _ hsound
  have hroom := h.room_cons
  rw [hadmits, Bool.toNat_false]
  omega

/-- A check that would pass with the submissions under way counted leaves room for one job. -/
theorem Tally.allowed (h : Tally maxConcurrentJobs s (g ::ₘ gs)) (hg : g.state = .asking)
    (hcount : s.store.concurrentJobs + (admitting gs + counting gs : Nat) < maxConcurrentJobs) :
    Tally maxConcurrentJobs (s.perform .getCounter) ({ g with state := .admitted } ::ₘ gs) := by
  apply h.looked ⟨rfl, rfl, rfl, rfl⟩
  · rw [hg]
    rfl
  · rw [hg]
    rfl
  · rw [hg]
    exact nofun
  · have hle := h.guarded_le
    have hbalance := h.balance_cons
    rw [hg] at hbalance
    simp only [Errand.admits, Errand.uncounted, Errand.owing, Bool.toNat_true, Bool.toNat_false]
      at hbalance ⊢
    omega
  · trivial

theorem Tally.unguarded_new (h : Tally maxConcurrentJobs s gs) :
    s.store.decremented s.store.nextId = false := by
  by_contra hguard
  have hended := h.guarded _ (Bool.not_eq_false _ ▸ hguard)
  exact absurd ((h.rows _).mp (isSome_of_ended hended)) (lt_irrefl _)

theorem Tally.jobCreated (h : Tally maxConcurrentJobs s (g ::ₘ gs)) (hg : g.state = .admitted) :
    Tally maxConcurrentJobs (s.perform .createJob)
      ({ g with state := .created s.store.nextId } ::ₘ gs) := by
  have hstatus : (s.perform .createJob).store.status =
      Function.update s.store.status s.store.nextId (some .pending) := rfl
  have hguard : (s.perform .createJob).store.decremented = s.store.decremented := rfl
  have hnew : s.store.status s.store.nextId = none := by
    rw [← Option.not_isSome_iff_eq_none, h.rows]
    exact lt_irrefl _
  have hended (job : JobId) : ended (s.perform .createJob).store job = ended s.store job := by
    by_cases hjob : job = s.store.nextId
    · subst hjob
      simp [ended, hstatus, hnew, JobStatus.terminal]
    · simp [ended, hstatus, hjob]
  have hopen : openJobs (s.perform .createJob).store = openJobs s.store + 1 := by
    have hnext : (s.perform .createJob).store.nextId = s.store.nextId + 1 := rfl
    simp only [openJobs, hnext, countBelow_succ, hstatus, Function.update_self, Option.any_some,
      JobStatus.terminal, Bool.not_false, Bool.toNat_true]
    congr 1
    apply countBelow_congr
    intro job hjob
    simp [Nat.ne_of_lt hjob]
  have hguarded : guardedJobs (s.perform .createJob).store = guardedJobs s.store := by
    have hnext : (s.perform .createJob).store.nextId = s.store.nextId + 1 := rfl
    simp [guardedJobs, hnext, countBelow_succ, hguard, h.unguarded_new]
  apply h.moved
  · intro job
    have hrow := h.rows job
    by_cases hjob : job = s.store.nextId
    · subst hjob
      simp [Shared.perform, apply, LimitEffect.apply]
    · have hlt : job < s.store.nextId + 1 ↔ job < s.store.nextId := by
        rw [Nat.lt_succ_iff_lt_or_eq, or_iff_left hjob]
      rw [hstatus, Function.update_of_ne hjob, hrow]
      exact hlt.symm
  · exact Nat.le_succ _
  · exact fun job hjob => (hended job).trans hjob
  · exact fun job hjob => (hended job).trans (h.guarded job hjob)
  · intro job hjob hnot
    exact Or.inr ⟨by rw [hg]; exact nofun, (hended job).symm.trans hjob, hnot⟩
  · have hbalance := h.balance_cons
    have hcounter : (s.perform .createJob).store.concurrentJobs = s.store.concurrentJobs := rfl
    have hnext : (s.perform .createJob).store.nextId = s.store.nextId + 1 := rfl
    rw [hg] at hbalance
    rw [hcounter, hguarded, hnext]
    simp only [Errand.uncounted, Errand.owing, Bool.toNat_true, Bool.toNat_false] at hbalance ⊢
    push_cast
    omega
  · have hroom := h.room_cons
    rw [hg] at hroom
    simp only [hopen, Errand.admits, Bool.toNat_true, Bool.toNat_false] at hroom ⊢
    omega
  · trivial

/-- The counter changes together with what is owed. -/
theorem Tally.settled (h : Tally maxConcurrentJobs s (g ::ₘ gs))
    (hsame : (s.perform e).store.nextId = s.store.nextId ∧
      (s.perform e).store.status = s.store.status ∧
      (s.perform e).store.decremented = s.store.decremented)
    (hnot : ∀ job, g.state ≠ .closing job)
    (hbalance : (s.perform e).store.concurrentJobs + g.state.owing.toNat =
      s.store.concurrentJobs + g.state.uncounted.toNat) :
    Tally maxConcurrentJobs (s.perform e) ({ g with state := .done } ::ₘ gs) := by
  obtain ⟨hnext, hstatus, hguard⟩ := hsame
  have hended (job : JobId) : ended (s.perform e).store job = ended s.store job := by
    simp [ended, hstatus]
  have hopen : openJobs (s.perform e).store = openJobs s.store := by
    simp [openJobs, hstatus, hnext]
  have hguarded : guardedJobs (s.perform e).store = guardedJobs s.store := by
    simp [guardedJobs, hguard, hnext]
  apply h.moved
  · rw [hstatus, hnext]
    exact h.rows
  · rw [hnext]
  · exact fun job hjob => (hended job).trans hjob
  · intro job hjob
    rw [hguard] at hjob
    exact (hended job).trans (h.guarded job hjob)
  · intro job hjob hopen
    rw [hguard] at hopen
    exact Or.inr ⟨hnot job, (hended job).symm.trans hjob, hopen⟩
  · have hold := h.balance_cons
    rw [hguarded, hnext]
    simp only [Errand.uncounted, Errand.owing, Bool.toNat_false]
    omega
  · have hroom := h.room_cons
    rw [hopen]
    simp only [Errand.admits, Bool.toNat_false]
    omega
  · trivial

theorem status_commitStatus (s : LimitShared) (job other : JobId) (status : JobStatus) :
    (s.perform (.commitStatus job status)).store.status other =
      if other = job then (s.store.status job).map fun _ => status else s.store.status other := by
  by_cases hjob : other = job
  · subst hjob
    simp [Shared.perform, apply, LimitEffect.apply]
  · simp [Shared.perform, apply, LimitEffect.apply, hjob]

theorem ended_commitStatus (hrow : (s.store.status job).isSome) (other : JobId)
    (status : JobStatus) :
    ended (s.perform (.commitStatus job status)).store other =
      if other = job then status.terminal else ended s.store other := by
  obtain ⟨old, hold⟩ := Option.isSome_iff_exists.mp hrow
  by_cases hjob : other = job
  · subst hjob
    simp [ended, status_commitStatus, hold]
  · simp [ended, status_commitStatus, hjob]

/-- A status is written to a row. -/
theorem Tally.committed (h : Tally maxConcurrentJobs s (g ::ₘ gs)) (hg : g.state = .knows job)
    {status : JobStatus} (hkeeps : ended s.store job = true → status.terminal = true)
    (hrest : l = if status.terminal then .closing job else .knows job) :
    Tally maxConcurrentJobs (s.perform (.commitStatus job status))
      ({ g with state := l } ::ₘ gs) := by
  have hrow : (s.store.status job).isSome := by
    have hsound := h.sound g (Multiset.mem_cons_self g gs)
    rwa [hg] at hsound
  have hended (other : JobId) := ended_commitStatus hrow other status
  have hsome (other : JobId) :
      ((s.perform (.commitStatus job status)).store.status other).isSome =
        (s.store.status other).isSome := by
    rw [status_commitStatus]
    split
    · rename_i hjob
      rw [hjob, Option.isSome_map]
    · rfl
  have hrows (other : JobId) :
      ((s.perform (.commitStatus job status)).store.status other).isSome ↔
        other < s.store.nextId := by
    rw [hsome]
    exact h.rows other
  have hgrows (other : JobId) (hother : ended s.store other = true) :
      ended (s.perform (.commitStatus job status)).store other = true := by
    rw [hended]
    split
    · rename_i hjob
      exact hkeeps (hjob ▸ hother)
    · exact hother
  -- a job that ends is no longer open, and one that stays open counts as before
  have hopen : openJobs (s.perform (.commitStatus job status)).store ≤ openJobs s.store := by
    have hbefore := openJobs_add_ended h.rows
    have hafter := openJobs_add_ended (s := s.perform (.commitStatus job status)) hrows
    have hle : countBelow s.store.nextId (ended s.store) ≤
        countBelow s.store.nextId (ended (s.perform (.commitStatus job status)).store) :=
      countBelow_le fun other _ => hgrows other
    have hnext : (s.perform (.commitStatus job status)).store.nextId = s.store.nextId := rfl
    rw [hnext] at hafter
    omega
  apply h.moved
  · exact hrows
  · exact le_rfl
  · exact hgrows
  · exact fun other hother => hgrows other (h.guarded other hother)
  · intro other hother hguard
    rw [hended] at hother
    by_cases hjob : other = job
    · subst hjob
      rw [if_pos rfl] at hother
      exact Or.inl (by rw [hrest, if_pos hother])
    · rw [if_neg hjob] at hother
      exact Or.inr ⟨by rw [hg]; exact nofun, hother, hguard⟩
  · have hbalance := h.balance_cons
    have hclasses : l.uncounted = false ∧ l.owing = false := by
      rw [hrest]
      split <;> exact ⟨rfl, rfl⟩
    rw [hg] at hbalance
    rw [hclasses.1, hclasses.2]
    exact hbalance
  · have hroom := h.room_cons
    have hadmits : l.admits = false := by
      rw [hrest]
      split <;> rfl
    rw [hadmits, Bool.toNat_false]
    omega
  · rw [hrest]
    split
    · rename_i hterminal
      change ended _ job = true
      rw [hended, if_pos rfl]
      exact hterminal
    · exact (hrows job).mpr ((h.rows job).mp hrow)

/-- The guard key of a job is set, by the call that owes the decrement from then on. -/
theorem Tally.guardSet (h : Tally maxConcurrentJobs s (g ::ₘ gs)) (hg : g.state = .closing job)
    (hl : l = if s.store.decremented job then .done else .owes) :
    Tally maxConcurrentJobs (s.perform (.setGuard job)) ({ g with state := l } ::ₘ gs) := by
  have hjob : ended s.store job = true := by
    have hsound := h.sound g (Multiset.mem_cons_self g gs)
    rwa [hg] at hsound
  have hlt : job < s.store.nextId := (h.rows job).mp (isSome_of_ended hjob)
  have hguard : (s.perform (.setGuard job)).store.decremented =
      Function.update s.store.decremented job true := rfl
  have hcount : guardedJobs (s.perform (.setGuard job)).store =
      guardedJobs s.store + l.owing.toNat := by
    have hstep : guardedJobs (s.perform (.setGuard job)).store + (s.store.decremented job).toNat =
        guardedJobs s.store + 1 := by
      have := countBelow_update (p := s.store.decremented)
        (q := (s.perform (.setGuard job)).store.decremented) hlt fun other _ hne => by
          simp [hguard, hne]
      have htrue : (s.perform (.setGuard job)).store.decremented job = true := by simp [hguard]
      rw [htrue] at this
      exact this
    rw [hl]
    cases hset : s.store.decremented job <;> simp [hset, Errand.owing] at hstep ⊢ <;> omega
  apply h.moved
  · exact h.rows
  · exact le_rfl
  · exact fun other hother => hother
  · intro other hother
    by_cases heq : other = job
    · subst heq
      exact hjob
    · rw [hguard, Function.update_of_ne heq] at hother
      exact h.guarded other hother
  · intro other hother hnot
    have hne : other ≠ job := by
      rintro rfl
      simp [hguard] at hnot
    rw [hguard, Function.update_of_ne hne] at hnot
    right
    refine ⟨?_, hother, hnot⟩
    rw [hg]
    exact fun heq => hne (Errand.closing.inj heq).symm
  · have hbalance := h.balance_cons
    have hcounted : l.uncounted = false := by
      rw [hl]
      split <;> rfl
    have hcounter : (s.perform (.setGuard job)).store.concurrentJobs = s.store.concurrentJobs := rfl
    have hnext : (s.perform (.setGuard job)).store.nextId = s.store.nextId := rfl
    rw [hg] at hbalance
    rw [hcounter, hnext, hcount, hcounted]
    simp only [Errand.uncounted, Errand.owing, Bool.toNat_false] at hbalance ⊢
    push_cast
    omega
  · have hroom := h.room_cons
    have hadmits : l.admits = false := by
      rw [hl]
      split <;> rfl
    have hopen : openJobs (s.perform (.setGuard job)).store = openJobs s.store := rfl
    rw [hadmits, hopen, Bool.toNat_false]
    omega
  · rw [hl]
    split <;> trivial

/-- A move that counts right keeps the tally. -/
theorem Tally.move (h : Tally maxConcurrentJobs s (g ::ₘ gs))
    (hmove : ErrandMove maxConcurrentJobs g.state s.store e l)
    (hcheck : e = .getCounter → s.store.concurrentJobs < maxConcurrentJobs →
      s.store.concurrentJobs + (admitting gs + counting gs : Nat) < maxConcurrentJobs)
    (hkeeps : ∀ job status, e = .commitStatus job status → ended s.store job = true →
      status.terminal = true)
    (hdecr : e = .decr → 0 < s.store.concurrentJobs) :
    Tally maxConcurrentJobs (s.perform e) ({ g with state := l } ::ₘ gs) := by
  have hsound := h.sound g (Multiset.mem_cons_self g gs)
  generalize hstate : g.state = state at hmove hsound
  generalize hstore : s.store = store at hmove
  cases hmove with
  | allow _ hroom =>
      subst hstore
      exact h.allowed hstate (hcheck rfl hroom)
  | deny | missing =>
      refine h.passed ⟨rfl, rfl, rfl, rfl⟩ ?_ ?_ ?_ rfl trivial <;> rw [hstate]
      all_goals first | rfl | exact nofun
  | create =>
      subst hstore
      exact h.jobCreated hstate
  | publish _ job =>
      refine h.passed ⟨rfl, rfl, rfl, rfl⟩ ?_ ?_ ?_ rfl trivial <;> rw [hstate]
      exact nofun
  | count _ job =>
      apply h.settled ⟨rfl, rfl, rfl⟩ <;> rw [hstate]
      · exact nofun
      · simp [Errand.owing, Errand.uncounted, Shared.perform, apply, LimitEffect.apply]
  | found _ job hrow =>
      subst hstore
      refine h.passed ⟨rfl, rfl, rfl, rfl⟩ ?_ ?_ ?_ rfl hrow <;> rw [hstate]
      all_goals first | rfl | exact nofun
  | foundEnded _ job hended =>
      subst hstore
      refine h.passed ⟨rfl, rfl, rfl, rfl⟩ ?_ ?_ ?_ rfl hended <;> rw [hstate]
      all_goals first | rfl | exact nofun
  | keepOpen _ job status hterminal =>
      apply h.committed hstate (hkeeps job status rfl)
      rw [hterminal]
      rfl
  | close _ job status hterminal =>
      apply h.committed hstate (hkeeps job status rfl)
      rw [hterminal]
      rfl
  | guard _ job hguard =>
      subst hstore
      apply h.guardSet hstate
      rw [hguard]
      rfl
  | guarded _ job hguard =>
      subst hstore
      apply h.guardSet hstate
      rw [hguard]
      rfl
  | decrement =>
      apply h.settled ⟨rfl, rfl, rfl⟩ <;> rw [hstate]
      · exact nofun
      · simp [Errand.owing, Errand.uncounted, Shared.perform, apply, LimitEffect.apply]
  | overdraw _ hnone =>
      subst hstore
      exact absurd (hdecr rfl) (not_lt.mpr hnone)
  | clamp => exact hsound.elim

end Tally

section Runs

variable {maxConcurrentJobs : Nat} {t : LimitThread} {g : Runner} {gs : Multiset Runner}

/-- A submission that is not counted yet can be seen in flight. -/
theorem inFlight_of_matches
    (h : t.Matches (fun _ => ErrandMove maxConcurrentJobs) (fun _ => True)
      (fun _ _ l => l.atRest = true) g) :
    inFlight t = (g.state.admits || g.state.uncounted) := by
  obtain ⟨_, _, hfollows⟩ := h
  cases hnext : t.rest.next? with
  | none =>
      obtain ⟨_, hend⟩ := Program.follows_end hfollows hnext
      simp only [inFlight, hnext]
      cases hstate : g.state <;> simp_all [Errand.atRest, Errand.admits, Errand.uncounted]
  | some e =>
      obtain ⟨l, hmove⟩ := Program.follows_next hfollows (s := LimitStore.fresh) trivial hnext
      generalize g.state = state at hmove
      simp only [inFlight, hnext]
      cases hmove <;> rfl

theorem countP_inFlight (gs : Multiset Runner) :
    (gs.countP fun g => g.state.admits || g.state.uncounted) = admitting gs + counting gs := by
  induction gs using Multiset.induction_on with
  | empty => rfl
  | cons g gs ih =>
      have hboth : ¬ (g.state.admits = true ∧ g.state.uncounted = true) := by
        cases g.state <;> simp [Errand.admits, Errand.uncounted]
      rw [Multiset.countP_cons, ih, admitting_cons, counting_cons]
      cases hadmits : g.state.admits <;> cases hcounted : g.state.uncounted <;>
        simp [hadmits, hcounted] at hboth ⊢ <;> omega

theorem tally_preserved : Preserved (LimitCall.code maxConcurrentJobs)
    (fun _ => ErrandMove maxConcurrentJobs) (fun _ => True) (fun _ _ l => l.atRest = true)
    errandStart (Counted maxConcurrentJobs) (Tally maxConcurrentJobs) := by
  constructor
  case code => exact fun _ c _ => runs_code c
  case store => exact fun _ _ _ => trivial
  case start =>
    intro pool gs c _ h _
    have hnew : (errandStart c).admits = false ∧ (errandStart c).uncounted = false ∧
        (errandStart c).owing = false ∧ (errandStart c).Sound pool.store := by
      cases c <;> exact ⟨rfl, rfl, rfl, trivial⟩
    obtain ⟨hadmits, hcounted, howing, hsound⟩ := hnew
    constructor
    case rows => exact h.rows
    case guarded => exact h.guarded
    case unguarded =>
      intro job hjob hguard
      obtain ⟨g, hg, hstate⟩ := h.unguarded job hjob hguard
      exact ⟨g, Multiset.mem_cons_of_mem hg, hstate⟩
    case balance => simpa [counting_cons, owing_cons, hcounted, howing] using h.balance
    case room => simpa [admitting_cons, hadmits] using h.room
    case sound =>
      intro g hg
      rcases Multiset.mem_cons.mp hg with rfl | hg
      · exact hsound
      · exact h.sound g hg
  case move =>
    intro pool g gs n e l h hok hnext hrest hmove
    have hcounts := hok e hnext
    apply h.move hmove
    · rintro rfl hroom
      have hflight : (pool.threads.eraseIdx n).countP inFlight = admitting gs + counting gs := by
        rw [Thread.countP_eq hrest fun t g hmatch => inFlight_of_matches hmatch]
        exact countP_inFlight gs
      have hall := hcounts hroom
      rw [hflight] at hall
      exact hall
    · rintro job status rfl
      exact hcounts
    · rintro rfl
      exact hcounts
  case done =>
    intro pool g gs a h hend
    have hrest : g.state.admits = false ∧ g.state.uncounted = false ∧ g.state.owing = false ∧
        ∀ job, g.state ≠ .closing job := by
      cases hstate : g.state <;> simp_all [Errand.atRest, Errand.admits, Errand.uncounted,
        Errand.owing]
    obtain ⟨hadmits, hcounted, howing, hnot⟩ := hrest
    constructor
    case rows => exact h.rows
    case guarded => exact h.guarded
    case unguarded =>
      intro job hjob hguard
      obtain ⟨g', hg', hstate⟩ := h.unguarded job hjob hguard
      rcases Multiset.mem_cons.mp hg' with rfl | hg'
      · exact absurd hstate (hnot job)
      · exact ⟨g', hg', hstate⟩
    case balance => simpa [counting_cons, owing_cons, hcounted, howing] using h.balance
    case room => simpa [admitting_cons, hadmits] using h.room
    case sound => exact fun g' hg' => h.sound g' (Multiset.mem_cons_of_mem hg')
  case fail => exact fun _ _ _ _ _ _ hok _ _ => hok.elim
  case outside => exact fun _ _ _ _ _ hok => hok.elim

theorem tally_fresh :
    Tally maxConcurrentJobs (Pool.idle LimitStore.fresh : LimitPool).toShared 0 where
  rows job := by simp [Pool.idle, LimitStore.fresh]
  guarded _ hguard := by cases hguard
  unguarded _ hended := by cases hended
  balance := by simp [Pool.idle, LimitStore.fresh, counting, owing, guardedJobs, countBelow]
  room := by simp [Pool.idle, LimitStore.fresh, openJobs, admitting, countBelow]
  sound _ hg := absurd hg (Multiset.notMem_zero _)

end Runs

section Samples

/-- A job is submitted, started and completed; then another one is submitted and cancelled. -/
def sampleJobs : List (Turn LimitCall LimitEffect) :=
  List.flatten [
    [.start .submit], List.replicate 5 (.move 0),
    [.start (.created 0 .started)], List.replicate 3 (.move 0),
    [.start (.completed 0 false), .start .submit], List.replicate 10 (.move 0),
    [.start (.cancel 1 false)], List.replicate 5 (.move 0)]

/-- Two submissions pass the check before either of them is counted. -/
def submittedTogether : List (Turn LimitCall LimitEffect) :=
  [.start .submit, .start .submit, .move 0, .move 1, .move 0, .move 1]

end Samples

end Dalston.Gateway
