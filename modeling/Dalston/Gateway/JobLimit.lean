import Dalston.Foundation.Counting
import Dalston.Foundation.Pool
import Dalston.Model.Rows

/-!
# The concurrent-job limit

A submission compares a tenant's counter with the limit, creates the job,
publishes it and then increments the counter. Whoever brings a job to an end
commits its status and then decrements the counter, guarded by a key of the job.
The two run in different processes, and so each effect may fall between any two
effects of the others.

## Implementation notes

The store is one tenant's part of the database and of Redis; a missing counter
counts as zero, and the keys do not expire. What a handler finds out about the
tasks of a job is an argument of its call: any answer is possible.
-/

namespace Dalston.Gateway

open Foundation Model

abbrev JobId := Nat

structure LimitStore where
  /-- The job ids that have been drawn are those below. -/
  nextId : JobId
  /-- The rows of the jobs table. -/
  status : JobId → Option JobStatus
  /-- `dalston:ratelimit:jobs:{tenant_id}`. -/
  concurrentJobs : Int
  /-- Whether the guard key of the job is set. -/
  decremented : JobId → Bool
  /-- The `job.created` events. -/
  published : List JobId

/-- A tenant without jobs. -/
def LimitStore.fresh : LimitStore where
  nextId := 0
  status _ := none
  concurrentJobs := 0
  decremented _ := false
  published := []

inductive LimitEffect
  | getCounter
  | createJob
  | publishJobCreated (job : JobId)
  | incr
  | selectJob (job : JobId)
  | commitStatus (job : JobId) (status : JobStatus)
  /-- `SET NX` of the guard key. -/
  | setGuard (job : JobId)
  | decr
  | setZero

def LimitEffect.apply (e : LimitEffect) (s : LimitStore) : LimitStore :=
  match e with
  | .getCounter | .selectJob _ => s
  | .createJob =>
      { s with
          nextId := s.nextId + 1
          status := Function.update s.status s.nextId (some .pending) }
  | .publishJobCreated job => { s with published := s.published ++ [job] }
  | .incr => { s with concurrentJobs := s.concurrentJobs + 1 }
  | .commitStatus job status =>
      { s with status := Function.update s.status job ((s.status job).map fun _ => status) }
  | .setGuard job => { s with decremented := Function.update s.decremented job true }
  | .decr => { s with concurrentJobs := s.concurrentJobs - 1 }
  | .setZero => { s with concurrentJobs := 0 }

instance : Interprets LimitEffect LimitStore := ⟨LimitEffect.apply⟩

abbrev LimitOp (A : Type) := Program LimitEffect LimitStore A

def execute (e : LimitEffect) : LimitOp Unit := do
  let _ ← Program.perform e
  return ()

/-- `check_concurrent_jobs`. -/
def checkConcurrentJobs (maxConcurrentJobs : Nat) : LimitOp Bool := do
  let before ← Program.perform .getCounter
  return decide (before.concurrentJobs < maxConcurrentJobs)

/-- Ensure the counter does not go negative. -/
def clampConcurrentJobs (result : Int) : LimitOp Unit :=
  if result < 0 then execute .setZero else return ()

/-- `_decrement_concurrent_jobs` and `decrement_concurrent_jobs_once`. -/
def decrementConcurrentJobs (job : JobId) : LimitOp Unit := do
  let before ← Program.perform (.setGuard job)
  if before.decremented job then return ()
  else do
    let before ← Program.perform .decr
    clampConcurrentJobs (before.concurrentJobs - 1)

/-- Commit a final status and give the job's place back. -/
def closeJob (job : JobId) (status : JobStatus) : LimitOp Unit := do
  execute (.commitStatus job status)
  decrementConcurrentJobs job

/-- What becomes of a new job whose status lets it be started. -/
inductive Creation
  /-- Its tasks exist, or another orchestrator creates them. -/
  | exists
  /-- No model or engine can be selected. -/
  | refused
  | started
  /-- A first task finds its engine unavailable. -/
  | unavailable

def createTasks (job : JobId) : Creation → LimitOp Unit
  | .exists => return ()
  | .refused => closeJob job .failed
  | .started => execute (.commitStatus job .running)
  | .unavailable => do
      execute (.commitStatus job .running)
      closeJob job .failed

/-- `handle_job_created` on the status it has read. -/
def createFrom (job : JobId) (creation : Creation) : Option JobStatus → LimitOp Unit
  | none | some .cancelling | some .cancelled | some .running => return ()
  | some .pending | some .completed | some .failed => createTasks job creation

def handleJobCreated (job : JobId) (creation : Creation) : LimitOp Unit := do
  let before ← Program.perform (.selectJob job)
  createFrom job creation (before.status job)

/-- `_ensure_job_failed_side_effects` on the status it has read. -/
def failFrom (job : JobId) : Option JobStatus → LimitOp Unit
  | none => return ()
  | some .failed | some .cancelled => decrementConcurrentJobs job
  | some .pending | some .running | some .completed | some .cancelling => closeJob job .failed

def ensureJobFailed (job : JobId) : LimitOp Unit := do
  let before ← Program.perform (.selectJob job)
  failFrom job (before.status job)

/-- A dependent task finds its engine unavailable. -/
def failUnavailableFrom (job : JobId) : Option JobStatus → LimitOp Unit
  | none => return ()
  | some _ => closeJob job .failed

def failUnavailable (job : JobId) : LimitOp Unit := do
  let before ← Program.perform (.selectJob job)
  failUnavailableFrom job (before.status job)

/-- `_check_job_completion` on the status it has read, once the pipeline tasks are done. -/
def completeFrom (job : JobId) (anyFailed : Bool) : Option JobStatus → LimitOp Unit
  | none | some .completed | some .failed | some .cancelled => return ()
  | some .pending | some .running | some .cancelling =>
      closeJob job (if anyFailed then .failed else .completed)

def checkJobCompletion (job : JobId) (anyFailed : Bool) : LimitOp Unit := do
  let before ← Program.perform (.selectJob job)
  completeFrom job anyFailed (before.status job)

/-- `_check_job_cancellation_complete` on the status it has read. -/
def cancelledFrom (job : JobId) (running : Bool) : Option JobStatus → LimitOp Unit
  | some .cancelling => if running then return () else closeJob job .cancelled
  | _ => return ()

def checkJobCancellationComplete (job : JobId) (running : Bool) : LimitOp Unit := do
  let before ← Program.perform (.selectJob job)
  cancelledFrom job running (before.status job)

/-- `cancel_job` and its route on the status it has read. -/
def cancelFrom (job : JobId) (running : Bool) : Option JobStatus → LimitOp Unit
  | some .pending | some .running =>
      if running then execute (.commitStatus job .cancelling) else closeJob job .cancelled
  | _ => return ()

def cancelJob (job : JobId) (running : Bool) : LimitOp Unit := do
  let before ← Program.perform (.selectJob job)
  cancelFrom job running (before.status job)

inductive LimitCall
  | submit
  | created (job : JobId) (creation : Creation)
  | failed (job : JobId)
  | unavailable (job : JobId)
  | completed (job : JobId) (anyFailed : Bool)
  | cancelled (job : JobId) (running : Bool)
  | cancel (job : JobId) (running : Bool)

inductive LimitReply
  | accepted (job : JobId)
  /-- The submission is answered with status 429. -/
  | limited
  | handled

/-- A submission whose check has passed. -/
def createTranscription : LimitOp LimitReply := do
  let before ← Program.perform .createJob
  execute (.publishJobCreated before.nextId)
  execute .incr
  return .accepted before.nextId

def submit (maxConcurrentJobs : Nat) : LimitOp LimitReply := do
  let allowed ← checkConcurrentJobs maxConcurrentJobs
  if allowed then createTranscription else return .limited

def handled (p : LimitOp Unit) : LimitOp LimitReply := do
  let _ ← p
  return .handled

def LimitCall.code (maxConcurrentJobs : Nat) : LimitCall → LimitOp LimitReply
  | .submit => Gateway.submit maxConcurrentJobs
  | .created job creation => handled (handleJobCreated job creation)
  | .failed job => handled (ensureJobFailed job)
  | .unavailable job => handled (failUnavailable job)
  | .completed job anyFailed => handled (checkJobCompletion job anyFailed)
  | .cancelled job running => handled (checkJobCancellationComplete job running)
  | .cancel job running => handled (cancelJob job running)

abbrev LimitShared := Shared LimitCall LimitEffect LimitStore LimitReply

abbrev LimitThread := Thread LimitCall LimitEffect LimitStore LimitReply

abbrev LimitPool := Pool LimitCall LimitEffect LimitStore LimitReply

/-- The jobs that have not ended. -/
def openJobs (s : LimitStore) : Nat :=
  countBelow s.nextId fun job => (s.status job).any fun status => !status.terminal

end Dalston.Gateway
