import Dalston.Orchestrator.OptionalTasks
import Dalston.Orchestrator.Writers

/-!
# Changes of a task's status

Most writers load a task's row, decide, and then write the status whatever it
has become; only the claims of a ready or pending task carry the status in
their `WHERE` clause. So a status decided from an earlier read can overwrite
one that another writer has committed since, and a completion is committed to
a cancelled task too. Where every writer finds the status it has read, and no
completion meets a cancelled task, each commit is a change the writers' guards
allow.
-/

namespace Dalston.Orchestrator

open Foundation Model

/-- Every task keeps its status or changes it as the writers' guards allow. -/
def ChangesAllowed (s s' : World) : Prop :=
  ∀ t ∈ s.tasks.rows, ∀ t' ∈ s'.tasks.rows, t'.id = t.id →
    t'.status = t.status ∨ allowsChange t.status t'.status

/-- The tasks that the effect completes on the event of their completion. -/
def completes : Effect → List Uuid
  | .completeTask id _ => [id]
  | _ => []

/-- The tasks whose status a commit overwrites still have the status its session knows. -/
def Current (s : World) (n : Noted Effect Known) : Prop :=
  ∀ t ∈ s.tasks.rows, t.id ∈ overwrites n.effect → ∀ u ∈ n.known t.id, u.status = t.status

/-- The completed task is not a cancelled one. -/
def SparesCancelled (s : World) (e : Effect) : Prop :=
  ∀ t ∈ s.tasks.rows, t.id ∈ completes e → t.status ≠ .cancelled

/-- The next effect of a call finds the tasks as its session knows them, and completes no
cancelled one. -/
def Undisputed (pool : JobPool) : JobTurn → Prop
  | .move i => ∀ n ∈ pool.next? i, Current pool.store n ∧ SparesCancelled pool.store n.effect
  | .outside n => ofEngine n.effect
  | .start _ | .fail _ => True

instance (s : World) (n : Noted Effect Known) : Decidable (Current s n) :=
  inferInstanceAs (Decidable (∀ t ∈ s.tasks.rows,
    t.id ∈ overwrites n.effect → ∀ u ∈ n.known t.id, u.status = t.status))

instance (s : World) (e : Effect) : Decidable (SparesCancelled s e) :=
  inferInstanceAs (Decidable (∀ t ∈ s.tasks.rows, t.id ∈ completes e → t.status ≠ .cancelled))

section Effects

variable {s : World} {e : Effect}

/-- A guarded update finds the status in its `WHERE` clause or leaves the row alone. -/
theorem change_of_claims {t : TaskModel} (hclaim : t.id ∈ claims e) :
    (e.updateRow t).status = t.status ∨ allowsChange t.status (e.updateRow t).status := by
  cases e <;> simp only [claims, List.mem_singleton, List.not_mem_nil] at hclaim
  case claimReady id now =>
    by_cases hpending : t.status = .pending <;>
      simp [Effect.updateRow, hclaim, hpending, allowsChange]
  case claimRunning id now =>
    by_cases hready : t.status = .ready <;> simp [Effect.updateRow, hclaim, hready, allowsChange]

/-- A commit with grounds that are current makes an allowed change. -/
theorem changesAllowed_of_grounded {k : Known} (hg : Grounded k e) (hc : Current s ⟨e, k⟩)
    (hspares : SparesCancelled s e) : ChangesAllowed s (e.apply s) := by
  intro t ht t' ht' hid
  obtain rfl := eq_updateRow ht ht' hid
  by_cases hover : t.id ∈ overwrites e
  swap
  · by_cases hclaim : t.id ∈ claims e
    · exact change_of_claims hclaim
    · exact Or.inl (congrArg TaskModel.status (updateRow_of_untouched hover hclaim))
  obtain ⟨u, hu, huid, hgrounds⟩ := hg.row t.id hover
  have hstatus : u.status = t.status := hc t ht hover u hu
  refine Or.inr ?_
  rw [status_updateRow huid hover, ← hstatus]
  rcases hgrounds.change with hchange | ⟨hcancelled, now, rfl⟩
  · exact hchange
  · exact absurd (hstatus.symm.trans hcancelled) (hspares t ht (by simp [completes, huid]))

theorem changesAllowed_of_rows {s' : World} (h : s'.tasks = s.tasks) : ChangesAllowed s s' := by
  intro t ht t' ht' hid
  rw [h] at ht'
  exact Or.inl (congrArg TaskModel.status (TaskTable.eq_of_id ht' ht hid))

end Effects

section Runs

/-- The moves that take a mono job to its transcription, which an engine holds. -/
def transcribingMoves : List Move :=
  prepareMoves monoDag ++ [Move.event monoDag (.taskStarted 1), .engine (.claimEntry 1)]

def transcribingJob : World := transcribingMoves.foldl Move.apply (submitted (newJob 0 []))

def lastCompletion : Writer := .handler (sampleEnv monoDag fun _ => true) (.taskCompleted 1)

/-- The completion alone reads the running task. -/
def readCompletion : JobPool :=
  (Pool.idle transcribingJob).turns sessions [.start lastCompletion, .move 0]

/-- The scanner reads the running task before its completion is committed. -/
def scannedCompletion : List JobTurn :=
  [.start (.scanner deadEngines), .move 0, .move 0, .start lastCompletion, .move 1, .move 1]

def overtakenScan : JobPool := (Pool.idle transcribingJob).turns sessions scannedCompletion

end Runs

end Dalston.Orchestrator
