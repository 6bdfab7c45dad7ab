import Dalston.Foundation.Actions
import Dalston.Foundation.Lease
import Dalston.Model.Rows

/-!
# Leader election of the background loops

Every orchestrator runs two loops, one that scans for stale tasks and one that
reconciles. A loop sleeps, tries to take the leader lock of its kind in Redis,
makes one pass if it got it and gives the lock back. The lock has an expiry and
is not extended while a pass runs, so a pass that takes longer than the expiry
goes on without it.

## Implementation notes

An orchestrator is the name it writes into its locks, which is unique. Time is in
milliseconds and passes between any two moves; a pass takes any number of moves
and any time. A command can be lost before Redis executes it, and so can its
answer.
-/

namespace Dalston.Orchestrator

open Foundation

/-- The loops that only a leader runs. -/
inductive PassKind
  | scan | reconcile
  deriving DecidableEq

def LEADER_LOCK_TTL_SECONDS : Nat := 120

def RECONCILER_LOCK_TTL_SECONDS : Nat := 120

/-- The expiry of a loop's lock, in milliseconds. -/
def PassKind.lockTtl : PassKind → Nat
  | .scan => LEADER_LOCK_TTL_SECONDS * 1000
  | .reconcile => RECONCILER_LOCK_TTL_SECONDS * 1000

/-- What the task of a loop waits for. -/
inductive LoopStage
  /-- There is no task, or it has ended. -/
  | stopped
  | sleeping
  /-- `SET NX EX` is on its way to Redis. -/
  | acquiring
  /-- The answer is on its way: when the lock was taken, if it was. -/
  | answered (takenAt : Option Nat)
  /-- The pass is under way, under the lock that was taken at the time. -/
  | inside (takenAt : Nat)
  /-- The pass has ended and the script that gives the lock back is on its way. -/
  | releasing
  /-- The task was cancelled and `stop` gives the lock back. -/
  | stopping
  deriving DecidableEq

/-- The fields of `StaleTaskScanner` and of `ReconciliationSweeper`. -/
structure LeaderLoop where
  running : Bool
  isLeader : Bool
  consecutiveErrors : Nat
  stage : LoopStage

namespace LeaderLoop

/-- The loop of a new process. -/
def fresh : LeaderLoop where
  running := false
  isLeader := false
  consecutiveErrors := 0
  stage := .stopped

def start (loop : LeaderLoop) : LeaderLoop :=
  if loop.running then loop else { loop with running := true, stage := .sleeping }

/-- `stop`: the task is cancelled where it waits, and a leader gives its lock back. -/
def stop (loop : LeaderLoop) : LeaderLoop :=
  { loop with running := false, stage := if loop.isLeader then .stopping else .stopped }

/-- The handler of an exception: the fifth one in a row ends the task. -/
def error (loop : LeaderLoop) : LeaderLoop :=
  { loop with
      consecutiveErrors := loop.consecutiveErrors + 1
      isLeader := false
      stage := if 5 ≤ loop.consecutiveErrors + 1 then .stopped else .sleeping }

/-- The answer to `SET NX EX` has come. -/
def answer (loop : LeaderLoop) : Option Nat → LeaderLoop
  | some takenAt => { loop with isLeader := true, stage := .inside takenAt }
  | none => { loop with isLeader := false, stage := .sleeping }

/-- The script has returned, or has raised, which is only logged. -/
def released (loop : LeaderLoop) : LeaderLoop :=
  if loop.stage = .releasing then { loop with isLeader := false, stage := .sleeping }
  else { loop with stage := .stopped }

end LeaderLoop

/-- The moves of one loop. -/
inductive LoopMove
  | start
  | stop
  | wake
  /-- Redis executes `SET NX EX`. -/
  | set
  | answer
  | passEnds
  /-- The command, the answer or the pass raises. -/
  | raise
  /-- Redis executes the script that checks the holder and deletes. -/
  | release
  /-- The script is lost. -/
  | releaseLost

structure Leadership where
  now : Nat
  lock : PassKind → Option (Lease String)
  loops : PassKind → String → LeaderLoop

namespace Leadership

def loop (s : Leadership) (kind : PassKind) (i : String) : LeaderLoop := s.loops kind i

def setLoop (s : Leadership) (kind : PassKind) (i : String) (loop : LeaderLoop) : Leadership :=
  { s with loops := Function.update s.loops kind (Function.update (s.loops kind) i loop) }

def setLock (s : Leadership) (kind : PassKind) (lock : Option (Lease String)) : Leadership :=
  { s with lock := Function.update s.lock kind lock }

/-- The lease of the kind that is in force. -/
def current (s : Leadership) (kind : PassKind) : Option (Lease String) :=
  Lease.current (s.lock kind) s.now

/-- `SET key instance NX EX ttl`. -/
def acquire (s : Leadership) (kind : PassKind) (i : String) : Leadership :=
  (s.setLock kind (Lease.acquire (s.lock kind) s.now kind.lockTtl i)).setLoop kind i
    { s.loop kind i with
        stage := .answered (if (s.current kind).isNone then some s.now else none) }

/-- The script of `_release_leader_lock`. -/
def release (s : Leadership) (kind : PassKind) (i : String) : Leadership :=
  (s.setLock kind (Lease.release (s.lock kind) s.now i)).setLoop kind i
    (s.loop kind i).released

/-- A move that the loop cannot make where it waits changes nothing. -/
def move (s : Leadership) (kind : PassKind) (i : String) (m : LoopMove) : Leadership :=
  let loop := s.loop kind i
  match m, loop.stage with
  | .start, .stopped => s.setLoop kind i loop.start
  | .stop, .stopping => s
  | .stop, _ => s.setLoop kind i loop.stop
  | .wake, .sleeping => s.setLoop kind i { loop with stage := .acquiring }
  | .set, .acquiring => s.acquire kind i
  | .answer, .answered takenAt => s.setLoop kind i (loop.answer takenAt)
  | .passEnds, .inside _ => s.setLoop kind i { loop with consecutiveErrors := 0, stage := .releasing }
  | .raise, .acquiring | .raise, .answered _ | .raise, .inside _ => s.setLoop kind i loop.error
  | .release, .releasing | .release, .stopping => s.release kind i
  | .releaseLost, .releasing | .releaseLost, .stopping => s.setLoop kind i loop.released
  | _, _ => s

end Leadership

inductive LeaderAction
  /-- Time passes, in milliseconds. -/
  | tick (duration : Nat)
  | move (kind : PassKind) (i : String) (m : LoopMove)
  /-- The process of the orchestrator dies. -/
  | crash (i : String)

namespace Leadership

def act (s : Leadership) : LeaderAction → Leadership
  | .tick duration => { s with now := s.now + duration }
  | .move kind i m => s.move kind i m
  | .crash i => (s.setLoop .scan i .fresh).setLoop .reconcile i .fresh

/-- The orchestrator is inside a pass. -/
def Inside (s : Leadership) (kind : PassKind) (i : String) : Prop :=
  ∃ takenAt, (s.loop kind i).stage = .inside takenAt

/-- The orchestrator holds the lock of the kind. -/
def Holds (s : Leadership) (kind : PassKind) (i : String) : Prop :=
  ∃ lease, s.current kind = some lease ∧ lease.holder = i

/-- No loop has been started yet. -/
def Unstarted (s : Leadership) : Prop := ∀ kind i, s.loop kind i = .fresh

section Loops

variable (s : Leadership) (kind kind' : PassKind) (i i' : String) (loop : LeaderLoop)
  (lock : Option (Lease String))

@[simp] theorem now_setLoop : (s.setLoop kind i loop).now = s.now := rfl

@[simp] theorem current_setLoop : (s.setLoop kind i loop).current kind' = s.current kind' := rfl

@[simp] theorem loop_setLock : (s.setLock kind lock).loop kind' i = s.loop kind' i := rfl

@[simp] theorem now_setLock : (s.setLock kind lock).now = s.now := rfl

theorem loop_setLoop : (s.setLoop kind i loop).loop kind' i' =
    if kind' = kind ∧ i' = i then loop else s.loop kind' i' := by
  unfold setLoop Leadership.loop
  by_cases hsweep : kind' = kind
  · subst hsweep
    by_cases hi : i' = i
    · subst hi
      simp
    · simp [hi]
  · simp [hsweep]

theorem current_setLock : (s.setLock kind lock).current kind' =
    if kind' = kind then Lease.current lock s.now else s.current kind' := by
  unfold setLock current
  by_cases hsweep : kind' = kind
  · subst hsweep
    simp
  · simp [hsweep]

end Loops

end Leadership

/-- When the lock was taken that the loop goes by. -/
def LoopStage.takenAt : LoopStage → Option Nat
  | .answered takenAt => takenAt
  | .inside takenAt => some takenAt
  | _ => none

namespace Leadership

/-- What a move does. -/
inductive Moved (s : Leadership) (kind : PassKind) (i : String) (m : LoopMove) : Leadership → Prop
  | stays : Moved s kind i m s
  /-- The pass begins. -/
  | enters (takenAt : Nat) (loop : LeaderLoop) (hm : m = .answer)
      (h : (s.loop kind i).stage = .answered (some takenAt))
      (hloop : loop.stage = .inside takenAt) : Moved s kind i m (s.setLoop kind i loop)
  /-- The loop goes by no lock from now on. -/
  | leaves (loop : LeaderLoop) (hloop : loop.stage.takenAt = none) :
      Moved s kind i m (s.setLoop kind i loop)
  | acquires : Moved s kind i m (s.acquire kind i)
  | releases : Moved s kind i m (s.release kind i)

variable {s : Leadership} {kind kind' : PassKind} {i j : String} {m : LoopMove}

theorem takenAt_start (h : (s.loop kind i).stage = .stopped) :
    (s.loop kind i).start.stage.takenAt = none := by
  unfold LeaderLoop.start
  split
  · rw [h]
    rfl
  · rfl

theorem takenAt_stop (loop : LeaderLoop) : loop.stop.stage.takenAt = none := by
  unfold LeaderLoop.stop
  cases loop.isLeader <;> rfl

theorem takenAt_error (loop : LeaderLoop) : loop.error.stage.takenAt = none := by
  unfold LeaderLoop.error
  dsimp only
  split <;> rfl

theorem takenAt_released (loop : LeaderLoop) : loop.released.stage.takenAt = none := by
  unfold LeaderLoop.released
  split <;> rfl

theorem moved (s : Leadership) (kind : PassKind) (i : String) (m : LoopMove) :
    Moved s kind i m (s.move kind i m) := by
  unfold move
  dsimp only
  split
  case h_1 hstage => exact .leaves _ (takenAt_start hstage)
  case h_2 => exact .stays
  case h_3 => exact .leaves _ (takenAt_stop _)
  case h_4 => exact .leaves _ rfl
  case h_5 => exact .acquires
  case h_6 takenAt hstage =>
    cases takenAt with
    | none => exact .leaves _ rfl
    | some takenAt => exact .enters takenAt _ rfl hstage rfl
  case h_7 => exact .leaves _ rfl
  case h_8 => exact .leaves _ (takenAt_error _)
  case h_9 => exact .leaves _ (takenAt_error _)
  case h_10 => exact .leaves _ (takenAt_error _)
  case h_11 => exact .releases
  case h_12 => exact .releases
  case h_13 => exact .leaves _ (takenAt_released _)
  case h_14 => exact .leaves _ (takenAt_released _)
  case h_15 => exact .stays

/-- No orchestrator ends a lease of another one. -/
theorem current_move {lease : Lease String} (h : s.current kind' = some lease)
    (hne : lease.holder ≠ i) : (s.move kind i m).current kind' = some lease := by
  have hmoved := moved s kind i m
  generalize s.move kind i m = s' at hmoved ⊢
  cases hmoved with
  | stays => exact h
  | enters => exact h
  | leaves => exact h
  | acquires =>
      rw [acquire, current_setLoop, current_setLock]
      split
      · next hsweep =>
        subst hsweep
        exact Lease.current_acquire h
      · exact h
  | releases =>
      rw [release, current_setLoop, current_setLock]
      split
      · next hsweep =>
        subst hsweep
        exact Lease.current_release h hne
      · exact h

/-- No pass goes on, and none begins, when the lock that was taken for it has expired. -/
def Lasting (s : Leadership) : LeaderAction → Prop
  | .tick duration => ∀ kind i takenAt, (s.loop kind i).stage = .inside takenAt →
      s.now + duration ≤ takenAt + kind.lockTtl
  | .move kind i .answer => ∀ takenAt, (s.loop kind i).stage = .answered (some takenAt) →
      s.now ≤ takenAt + kind.lockTtl
  | _ => True

/-- A lock that has not expired is still held by the loop that goes by it. -/
structure Covered (s : Leadership) : Prop where
  held : ∀ kind i takenAt, (s.loop kind i).stage.takenAt = some takenAt →
    s.now ≤ takenAt + kind.lockTtl → s.current kind = some ⟨i, takenAt + kind.lockTtl⟩
  lasts : ∀ kind i takenAt, (s.loop kind i).stage = .inside takenAt →
    s.now ≤ takenAt + kind.lockTtl

theorem covered_of_unstarted (h : s.Unstarted) : s.Covered where
  held kind i takenAt htaken := by
    rw [h] at htaken
    cases htaken
  lasts kind i takenAt hinside := by
    rw [h] at hinside
    cases hinside

theorem Covered.tick {duration : Nat} (h : s.Covered) (hlasting : s.Lasting (.tick duration)) :
    (s.act (.tick duration)).Covered where
  held kind i takenAt htaken hnow := by
    have hbefore : s.now ≤ s.now + duration := Nat.le_add_right _ _
    have hcurrent := h.held kind i takenAt htaken (hbefore.trans hnow)
    obtain ⟨hlock, _⟩ := Lease.current_eq_some_iff.mp hcurrent
    exact Lease.current_eq_some_iff.mpr ⟨hlock, hnow⟩
  lasts kind i takenAt hinside := hlasting kind i takenAt hinside

/-- A loop that stops going by a lock leaves what covers the others. -/
theorem Covered.leaves {loop : LeaderLoop} (h : s.Covered) (hloop : loop.stage.takenAt = none) :
    (s.setLoop kind i loop).Covered where
  held kind' i' takenAt htaken hnow := by
    rw [loop_setLoop] at htaken
    split at htaken
    · rw [hloop] at htaken
      cases htaken
    · exact h.held kind' i' takenAt htaken hnow
  lasts kind' i' takenAt hinside := by
    rw [loop_setLoop] at hinside
    split at hinside
    · rw [hinside] at hloop
      cases hloop
    · exact h.lasts kind' i' takenAt hinside

theorem Covered.enters {takenAt : Nat} {loop : LeaderLoop} (h : s.Covered)
    (hanswered : (s.loop kind i).stage = .answered (some takenAt))
    (hloop : loop.stage = .inside takenAt) (hnow : s.now ≤ takenAt + kind.lockTtl) :
    (s.setLoop kind i loop).Covered where
  held kind' i' takenAt' htaken hnow' := by
    rw [loop_setLoop] at htaken
    split at htaken
    · next hsame =>
      obtain ⟨rfl, rfl⟩ := hsame
      rw [hloop] at htaken
      obtain rfl := Option.some.inj htaken
      exact h.held kind' i' takenAt (by rw [hanswered]; rfl) hnow
    · exact h.held kind' i' takenAt' htaken hnow'
  lasts kind' i' takenAt' hinside := by
    rw [loop_setLoop] at hinside
    split at hinside
    · next hsame =>
      obtain ⟨rfl, rfl⟩ := hsame
      rw [hloop] at hinside
      obtain rfl := LoopStage.inside.inj hinside
      exact hnow
    · exact h.lasts kind' i' takenAt' hinside

theorem Covered.acquires (h : s.Covered) : (s.acquire kind i).Covered := by
  have hcovers : ∀ kind' lease, s.current kind' = some lease →
      (s.acquire kind i).current kind' = some lease := by
    intro kind' lease hcurrent
    rw [acquire, current_setLoop, current_setLock]
    split
    · next hsweep =>
      subst hsweep
      exact Lease.current_acquire hcurrent
    · exact hcurrent
  constructor
  case held =>
    intro kind' i' takenAt htaken hnow
    rw [acquire, loop_setLoop] at htaken
    split at htaken
    · next hsame =>
      obtain ⟨rfl, rfl⟩ := hsame
      cases hcurrent : s.current kind' with
      | some lease =>
          rw [hcurrent] at htaken
          cases htaken
      | none =>
          rw [hcurrent] at htaken
          obtain rfl := Option.some.inj htaken
          rw [acquire, current_setLoop, current_setLock, if_pos rfl, Lease.acquire_of_none hcurrent]
          exact Lease.current_eq_some_iff.mpr ⟨rfl, hnow⟩
    · exact hcovers _ _ (h.held kind' i' takenAt htaken hnow)
  case lasts =>
    intro kind' i' takenAt hinside
    rw [acquire, loop_setLoop] at hinside
    split at hinside
    · cases hinside
    · exact h.lasts kind' i' takenAt hinside

theorem Covered.releases (h : s.Covered) : (s.release kind i).Covered where
  held kind' i' takenAt htaken hnow := by
    rw [release, loop_setLoop] at htaken
    rw [release, current_setLoop, current_setLock]
    split at htaken
    · rw [takenAt_released] at htaken
      cases htaken
    · next hother =>
      have hheld := h.held kind' i' takenAt htaken hnow
      split
      · next hsweep =>
        subst hsweep
        exact Lease.current_release hheld fun hi => hother ⟨rfl, hi⟩
      · exact hheld
  lasts kind' i' takenAt hinside := by
    rw [release, loop_setLoop] at hinside
    split at hinside
    · have hnone := takenAt_released (s.loop kind i)
      rw [hinside] at hnone
      cases hnone
    · exact h.lasts kind' i' takenAt hinside

theorem Covered.act {action : LeaderAction} (h : s.Covered) (hlasting : s.Lasting action) :
    (s.act action).Covered := by
  cases action with
  | tick duration => exact h.tick hlasting
  | crash i => exact (h.leaves rfl).leaves rfl
  | move kind i m =>
      have hmoved := moved s kind i m
      change (s.move kind i m).Covered
      generalize s.move kind i m = s' at hmoved ⊢
      cases hmoved with
      | stays => exact h
      | enters takenAt loop hm hanswered hloop =>
          subst hm
          exact h.enters hanswered hloop (hlasting takenAt hanswered)
      | leaves loop hloop => exact h.leaves hloop
      | acquires => exact h.acquires
      | releases => exact h.releases

theorem Covered.alone (h : s.Covered) (hi : s.Inside kind i) (hj : s.Inside kind j) :
    i = j := by
  obtain ⟨takenAt, hi⟩ := hi
  obtain ⟨takenAt', hj⟩ := hj
  have hheld := h.held kind i takenAt (by rw [hi]; rfl) (h.lasts kind i takenAt hi)
  have hheld' := h.held kind j takenAt' (by rw [hj]; rfl) (h.lasts kind j takenAt' hj)
  rw [hheld] at hheld'
  exact congrArg Lease.holder (Option.some.inj hheld')

/-- At most one orchestrator is inside a pass of each kind, and none can release a lock that
another one holds. -/
structure Exclusive (s : Leadership) : Prop where
  alone : ∀ kind i j, s.Inside kind i → s.Inside kind j → i = j
  respects : ∀ kind kind' i j m, j ≠ i → s.Holds kind' j → (s.move kind i m).Holds kind' j

theorem Covered.exclusive (h : s.Covered) : s.Exclusive where
  alone _ _ _ := h.alone
  respects _ _ _ _ _ hne hholds := by
    obtain ⟨lease, hcurrent, rfl⟩ := hholds
    exact ⟨lease, current_move hcurrent hne, rfl⟩

/-- Where no pass outlives its lock, there is never more than one leader. -/
theorem exclusive_of_lasting {s₀ : Leadership} (h₀ : s₀.Unstarted)
    (run : ActionRun (Acts act) Lasting s₀ s) : s.Exclusive := by
  have hcovered : s.Covered := by
    refine run.invariant (covered_of_unstarted h₀) ?_
    rintro s action _ hs rfl hlasting
    exact hs.act hlasting
  exact hcovered.exclusive

/-- Two orchestrators that nothing has happened to yet. -/
def unstarted : Leadership where
  now := 0
  lock _ := none
  loops _ _ := .fresh

theorem unstarted_unstarted : unstarted.Unstarted := fun _ _ => rfl

/-- From its start to inside a pass. -/
def intoPass (kind : PassKind) (i : String) : List LeaderAction :=
  [.move kind i .start, .move kind i .wake, .move kind i .set, .move kind i .answer]

theorem exclusive_in_one_pass :
    ((intoPass .scan "a").foldl act unstarted).Exclusive :=
  exclusive_of_lasting unstarted_unstarted
    (ActionRun.of_permitted ⟨trivial, trivial, trivial, fun _ h => by cases h; decide, trivial⟩)

/-- A pass that takes longer than two minutes is joined by the pass of another orchestrator. -/
theorem two_leaders : ∃ s, ActionRun (Acts act) (fun _ _ => True) unstarted s ∧
    s.Inside .scan "a" ∧ s.Inside .scan "b" := by
  have hpermitted : AllPermitted act (fun _ _ => True) unstarted
      (intoPass .scan "a" ++ .tick 120001 :: intoPass .scan "b") := by
    simp [AllPermitted, intoPass]
  exact ⟨_, ActionRun.of_permitted hpermitted, ⟨0, by decide +kernel⟩, ⟨120001, by decide +kernel⟩⟩

end Leadership

end Dalston.Orchestrator
