import Dalston.Foundation.Precedence
import Dalston.Foundation.Rounds
import Dalston.Model.Rows

/-!
# Order of a job's tasks

The tasks of a job are listed by their dependencies. The sort counts for every task the tasks it
depends on, takes a task that depends on none, and lowers the counts of those that depend on it.
Dependencies on tasks that are not listed are ignored.

## Implementation notes

The links from a task to its dependencies are rows of a table whose primary key is the pair of
them, so a task has no dependency twice. The loop may take a number of rounds.
-/

namespace Dalston.Gateway.TaskOrder

open Foundation Model

/-- The tasks of a job, as the database holds them. -/
structure JobTasks where
  rows : List TaskModel
  uniqueId : (rows.map (·.id)).Nodup
  /-- The primary key of `task_dependencies`. -/
  uniqueLink : ∀ t ∈ rows, t.dependencies.Nodup

/-- `sorted(..., key=lambda t: t.stage)`. -/
def byStage (tasks : List TaskModel) : List TaskModel :=
  tasks.insertionSort fun t u => t.stage ≤ u.stage

/-- Count the dependencies of a task that are listed. -/
def countListed (rows : List TaskModel) (inDegree : Uuid → Int) (task : TaskModel) : Uuid → Int :=
  task.dependencies.foldl
    (fun inDegree dep =>
      if dep ∈ rows.map (·.id) then
        Function.update inDegree task.id (inDegree task.id + 1)
      else inDegree)
    inDegree

def inDegrees (rows : List TaskModel) : Uuid → Int := rows.foldl (countListed rows) fun _ => 0

/-- Lower the counts of the tasks that depend on the current one; the second result lists those
whose counts have become zero. -/
def releaseDependents (current : TaskModel) :
    List TaskModel → (Uuid → Int) → (Uuid → Int) × List TaskModel
  | [], inDegree => (inDegree, [])
  | task :: rest, inDegree =>
      if current.id ∈ task.dependencies then
        let lowered := Function.update inDegree task.id (inDegree task.id - 1)
        let after := releaseDependents current rest lowered
        if lowered task.id = 0 then (after.1, task :: after.2) else after
      else releaseDependents current rest inDegree

/-- The loop that takes the ready tasks. -/
def sortLoop (rows : List TaskModel) :
    Nat → List TaskModel → (Uuid → Int) → List TaskModel → Option (List TaskModel)
  | 0, _, _, _ => none
  | _ + 1, [], _, result => some result
  | rounds + 1, current :: ready, inDegree, result =>
      let released := releaseDependents current rows inDegree
      sortLoop rows rounds (byStage (ready ++ byStage released.2)) released.1 (result ++ [current])

/-- `_topological_sort_tasks`. -/
def topologicalSortTasks (rows : List TaskModel) (rounds : Nat) : Option (List TaskModel) :=
  match rows with
  | [] => some []
  | _ :: _ =>
      sortLoop rows rounds (byStage (rows.filter fun t => inDegrees rows t.id = 0))
        (inDegrees rows) []

/-- The task has a dependency on the other one. -/
def DependsOn (t u : TaskModel) : Prop := u.id ∈ t.dependencies

/-- Every task comes after all its dependencies. -/
def InOrder (sorted : List TaskModel) : Prop :=
  ∀ (i j : Nat) (t u : TaskModel), sorted[i]? = some t → sorted[j]? = some u →
    DependsOn t u → j < i

section Counts

theorem perm_byStage (tasks : List TaskModel) : (byStage tasks).Perm tasks :=
  List.perm_insertionSort _ tasks

variable {rows : List TaskModel}

theorem countListed_self (inDegree : Uuid → Int) (task : TaskModel) :
    countListed rows inDegree task task.id =
      inDegree task.id + task.dependencies.countP fun dep => dep ∈ rows.map (·.id) := by
  unfold countListed
  generalize task.dependencies = deps
  induction deps generalizing inDegree with
  | nil => simp
  | cons dep rest ih =>
      rw [List.foldl_cons, ih, List.countP_cons]
      by_cases hlisted : dep ∈ rows.map (·.id)
      · simp only [hlisted, if_true, Function.update_self, decide_true]
        push_cast
        ring
      · simp [hlisted]

theorem countListed_ne (inDegree : Uuid → Int) (task : TaskModel) {id : Uuid}
    (h : id ≠ task.id) : countListed rows inDegree task id = inDegree id := by
  unfold countListed
  generalize task.dependencies = deps
  induction deps generalizing inDegree with
  | nil => rfl
  | cons dep rest ih =>
      rw [List.foldl_cons, ih]
      split_ifs
      · exact Function.update_of_ne h _ _
      · rfl

theorem foldl_countListed {l : List TaskModel} (inDegree : Uuid → Int)
    (hunique : (l.map (·.id)).Nodup) {t : TaskModel} (ht : t ∈ l) :
    l.foldl (countListed rows) inDegree t.id =
      inDegree t.id + t.dependencies.countP fun dep => dep ∈ rows.map (·.id) := by
  have hothers : ∀ (l : List TaskModel) (inDegree : Uuid → Int) (id : Uuid),
      id ∉ l.map (·.id) → l.foldl (countListed rows) inDegree id = inDegree id := by
    intro l
    induction l with
    | nil => intro _ _ _; rfl
    | cons u rest ih =>
        intro inDegree id hid
        rw [List.map_cons, List.mem_cons, not_or] at hid
        rw [List.foldl_cons, ih _ _ hid.2, countListed_ne _ _ hid.1]
  induction l generalizing inDegree with
  | nil => cases ht
  | cons u rest ih =>
      obtain ⟨hfresh, hunique⟩ := List.nodup_cons.mp hunique
      rw [List.foldl_cons]
      rcases List.mem_cons.mp ht with rfl | ht
      · rw [hothers rest _ _ hfresh, countListed_self]
      · rw [ih _ hunique ht, countListed_ne]
        exact fun hid => hfresh (List.mem_map.mpr ⟨t, ht, hid⟩)

/-- Each dependent's count goes down by one, and those that were held back by the current task
alone are listed. -/
theorem releaseDependents_eq {current : TaskModel} {l : List TaskModel} {inDegree : Uuid → Int}
    (hunique : (l.map (·.id)).Nodup) :
    (∀ t ∈ l, (releaseDependents current l inDegree).1 t.id =
      inDegree t.id - if current.id ∈ t.dependencies then 1 else 0) ∧
    (∀ id ∉ l.map (·.id), (releaseDependents current l inDegree).1 id = inDegree id) ∧
    (releaseDependents current l inDegree).2 =
      l.filter fun t => current.id ∈ t.dependencies ∧ inDegree t.id = 1 := by
  induction l generalizing inDegree with
  | nil => simp [releaseDependents]
  | cons task rest ih =>
      obtain ⟨hfresh, hunique⟩ := List.nodup_cons.mp hunique
      have hne : ∀ t ∈ rest, t.id ≠ task.id := fun t ht hid =>
        hfresh (List.mem_map.mpr ⟨t, ht, hid⟩)
      by_cases hdep : current.id ∈ task.dependencies
      · obtain ⟨hcounts, hothers, hlisted⟩ :=
          @ih (Function.update inDegree task.id (inDegree task.id - 1)) hunique
        have hself := hothers task.id hfresh
        rw [Function.update_self] at hself
        have hafter : (releaseDependents current (task :: rest) inDegree).1 =
            (releaseDependents current rest
              (Function.update inDegree task.id (inDegree task.id - 1))).1 := by
          simp only [releaseDependents, hdep, if_true]
          split_ifs <;> rfl
        have hsame : (rest.filter fun t => decide (current.id ∈ t.dependencies ∧
            Function.update inDegree task.id (inDegree task.id - 1) t.id = 1)) =
            rest.filter fun t => decide (current.id ∈ t.dependencies ∧ inDegree t.id = 1) := by
          refine List.filter_congr fun t ht => ?_
          rw [Function.update_of_ne (hne t ht)]
        refine ⟨fun t ht => ?_, fun id hid => ?_, ?_⟩
        · rw [hafter]
          rcases List.mem_cons.mp ht with rfl | ht
          · simpa [hdep] using hself
          · rw [hcounts t ht, Function.update_of_ne (hne t ht)]
        · rw [List.map_cons, List.mem_cons, not_or] at hid
          rw [hafter, hothers id hid.2, Function.update_of_ne hid.1]
        · rw [List.filter_cons, ← hsame, ← hlisted]
          simp only [releaseDependents, hdep, if_true, Function.update_self, true_and, sub_eq_zero]
          by_cases hone : inDegree task.id = 1 <;> simp [hone]
      · obtain ⟨hcounts, hothers, hlisted⟩ := @ih inDegree hunique
        simp only [releaseDependents, hdep, if_false]
        refine ⟨fun t ht => ?_, fun id hid => ?_, ?_⟩
        · rcases List.mem_cons.mp ht with rfl | ht
          · rw [hothers t.id hfresh]
            simp [hdep]
          · exact hcounts t ht
        · rw [List.map_cons, List.mem_cons, not_or] at hid
          exact hothers id hid.2
        · rw [hlisted, List.filter_cons]
          simp [hdep]

end Counts

section Loop

variable (tasks : JobTasks)

/-- The listed dependencies of a task that have not been taken. -/
def openLinks (taken : List TaskModel) (t : TaskModel) : List Uuid :=
  t.dependencies.filter fun id => id ∈ tasks.rows.map (·.id) ∧ id ∉ taken.map (·.id)

/-- The state of the loop: the counts are those of the links that are still open. -/
structure Sorting (ready taken : List TaskModel) (inDegree : Uuid → Int) : Prop where
  order : Taken DependsOn tasks.rows ready taken
  counts : ∀ t ∈ tasks.rows, inDegree t.id = (openLinks tasks taken t).length

variable {tasks} {ready taken : List TaskModel} {inDegree : Uuid → Int} {current t : TaskModel}

theorem eq_of_id {t u : TaskModel} (ht : t ∈ tasks.rows) (hu : u ∈ tasks.rows)
    (hid : t.id = u.id) : t = u :=
  List.inj_on_of_nodup_map tasks.uniqueId ht hu hid

theorem mem_openLinks {id : Uuid} : id ∈ openLinks tasks taken t ↔
    id ∈ t.dependencies ∧ id ∈ tasks.rows.map (·.id) ∧ id ∉ taken.map (·.id) := by
  simp only [openLinks, List.mem_filter, decide_eq_true_eq]

theorem mem_openLinks_id (hsubset : taken ⊆ tasks.rows) {u : TaskModel} (hu : u ∈ tasks.rows) :
    u.id ∈ openLinks tasks taken t ↔ DependsOn t u ∧ u ∉ taken := by
  have htaken : u.id ∈ taken.map (·.id) ↔ u ∈ taken := by
    refine ⟨fun h => ?_, fun h => List.mem_map_of_mem h⟩
    obtain ⟨v, hv, hid⟩ := List.mem_map.mp h
    exact eq_of_id (hsubset hv) hu hid ▸ hv
  rw [mem_openLinks, htaken, DependsOn]
  simp [List.mem_map_of_mem hu]

/-- Whatever all open links go to, in terms of tasks. -/
theorem forall_openLinks {P : Uuid → Prop} (hsubset : taken ⊆ tasks.rows) :
    (∀ id ∈ openLinks tasks taken t, P id) ↔
      ∀ u ∈ tasks.rows, DependsOn t u → u ∉ taken → P u.id := by
  constructor
  · intro h u hu hdep hopen
    exact h u.id ((mem_openLinks_id hsubset hu).mpr ⟨hdep, hopen⟩)
  · intro h id hid
    obtain ⟨u, hu, rfl⟩ := List.mem_map.mp (mem_openLinks.mp hid).2.1
    obtain ⟨hdep, hopen⟩ := (mem_openLinks_id hsubset hu).mp hid
    exact h u hu hdep hopen

/-- Taking a task closes the links to it. -/
theorem openLinks_take (ht : t ∈ tasks.rows) (hcurrent : current ∈ tasks.rows)
    (hfresh : current ∉ taken) (hsubset : taken ⊆ tasks.rows) :
    ((openLinks tasks (taken ++ [current]) t).length : Int) =
      (openLinks tasks taken t).length - if current.id ∈ t.dependencies then 1 else 0 := by
  have hnodup : (openLinks tasks taken t).Nodup := (tasks.uniqueLink t ht).filter _
  have hrest : openLinks tasks (taken ++ [current]) t =
      (openLinks tasks taken t).erase current.id := by
    rw [hnodup.erase_eq_filter, openLinks, openLinks, List.filter_filter]
    refine List.filter_congr fun id _ => ?_
    rw [Bool.eq_iff_iff]
    simp only [List.map_append, List.map_cons, List.map_nil, List.mem_append, List.mem_singleton,
      not_or, Bool.and_eq_true, bne_iff_ne, ne_eq, decide_eq_true_eq]
    tauto
  rw [hrest]
  split_ifs with hdep
  · have hmem : current.id ∈ openLinks tasks taken t :=
      (mem_openLinks_id hsubset hcurrent).mpr ⟨hdep, hfresh⟩
    have hpos := List.length_pos_of_mem hmem
    rw [List.length_erase_of_mem hmem]
    omega
  · have hmem : current.id ∉ openLinks tasks taken t := fun hmem => hdep (mem_openLinks.mp hmem).1
    rw [List.erase_of_not_mem hmem, sub_zero]

theorem sorting_start : Sorting tasks
    (byStage (tasks.rows.filter fun t => inDegrees tasks.rows t.id = 0)) []
    (inDegrees tasks.rows) := by
  have hcounts : ∀ t ∈ tasks.rows, inDegrees tasks.rows t.id = (openLinks tasks [] t).length := by
    intro t ht
    rw [inDegrees, foldl_countListed _ tasks.uniqueId ht, List.countP_eq_length_filter, openLinks]
    simp
  refine ⟨.start ?_ fun t => ?_, hcounts⟩
  · have hnodup : tasks.rows.Nodup := tasks.uniqueId.of_map
    exact (perm_byStage _).nodup_iff.mpr (hnodup.filter _)
  · rw [(perm_byStage _).mem_iff, List.mem_filter, decide_eq_true_eq]
    refine and_congr_right fun ht => ?_
    rw [hcounts t ht, Nat.cast_eq_zero, List.length_eq_zero_iff, List.eq_nil_iff_forall_not_mem]
    have hlinks : (∀ id ∈ openLinks tasks [] t, False) ↔
        ∀ u ∈ tasks.rows, DependsOn t u → u ∉ [] → False :=
      forall_openLinks (List.nil_subset _)
    simpa using hlinks

/-- A round of the loop. -/
theorem Sorting.round (h : Sorting tasks (current :: ready) taken inDegree) :
    Sorting tasks
      (byStage (ready ++ byStage (releaseDependents current tasks.rows inDegree).2))
      (taken ++ [current]) (releaseDependents current tasks.rows inDegree).1 := by
  obtain ⟨hcounts, -, hlisted⟩ := @releaseDependents_eq current _ inDegree tasks.uniqueId
  have hsubset : taken ⊆ tasks.rows := fun t ht => h.order.subset (List.mem_append_right _ ht)
  have hcurrent : current ∈ tasks.rows := h.order.subset (by simp)
  have hfresh : current ∉ taken := by
    have hnodup := (List.nodup_cons.mp h.order.nodup).1
    exact fun hmem => hnodup (List.mem_append_right _ hmem)
  rw [hlisted]
  have hjoined : (tasks.rows.filter fun t =>
      current.id ∈ t.dependencies ∧ inDegree t.id = 1).Nodup :=
    tasks.uniqueId.of_map.filter _
  have hmem : ∀ t, (t ∈ tasks.rows.filter fun t =>
      current.id ∈ t.dependencies ∧ inDegree t.id = 1) ↔
        t ∈ tasks.rows ∧ DependsOn t current ∧
          ∀ u ∈ tasks.rows, DependsOn t u → u ∈ taken ∨ u = current := by
    intro t
    rw [List.mem_filter, decide_eq_true_eq]
    refine and_congr_right fun ht => and_congr_right fun hdep => ?_
    -- one open link is left, and it goes to the current task
    have hmem : current.id ∈ openLinks tasks taken t :=
      (mem_openLinks_id hsubset hcurrent).mpr ⟨hdep, hfresh⟩
    have hnodup : (openLinks tasks taken t).Nodup := (tasks.uniqueLink t ht).filter _
    have hone : inDegree t.id = 1 ↔ ∀ id ∈ openLinks tasks taken t, id = current.id := by
      rw [h.counts t ht, Nat.cast_eq_one, List.length_eq_one_iff]
      constructor
      · rintro ⟨id, hid⟩ id' hid'
        rw [hid, List.mem_singleton] at hmem hid'
        rw [hid', hmem]
      · intro hall
        refine ⟨current.id, by_contra fun hne => ?_⟩
        rcases (hnodup.ne_singleton_iff current.id).mp hne with hnil | ⟨id, hid, hother⟩
        · exact List.not_mem_nil (hnil ▸ hmem)
        · exact hother (hall id hid)
    rw [hone, forall_openLinks hsubset]
    refine forall_congr' fun u => forall_congr' fun hu => forall_congr' fun _ => ?_
    constructor
    · intro heq
      by_cases htaken : u ∈ taken
      · exact Or.inl htaken
      · exact Or.inr (eq_of_id hu hcurrent (heq htaken))
    · rintro (htaken | rfl) hopen
      · exact absurd htaken hopen
      · rfl
  refine ⟨h.order.take hjoined hmem ?_, fun t ht => ?_⟩
  · exact (perm_byStage _).trans ((perm_byStage _).append_left _)
  · rw [hcounts t ht, h.counts t ht, openLinks_take ht hcurrent hfresh hsubset]

/-- The loop ends with every task that can be taken. -/
theorem Sorting.loop (h : Sorting tasks ready taken inDegree) :
    ∃ sorted, Returns (fun rounds => sortLoop tasks.rows rounds ready inDegree taken) sorted ∧
      Taken DependsOn tasks.rows [] sorted := by
  have hle : taken.length ≤ tasks.rows.length := by
    have hnodup := (List.nodup_append.mp h.order.nodup).2.1
    exact (hnodup.subperm fun t ht => h.order.subset (List.mem_append_right _ ht)).length_le
  obtain ⟨n, hn⟩ := Nat.exists_eq_add_of_le hle
  induction n generalizing ready taken inDegree with
  | zero =>
      cases ready with
      | nil => exact ⟨taken, returns_succ.mp (returns_const taken), h.order⟩
      | cons current ready =>
          have hround := h.round
          have hlonger : (taken ++ [current]).length ≤ tasks.rows.length := by
            have hnodup := (List.nodup_append.mp hround.order.nodup).2.1
            exact (hnodup.subperm fun t ht =>
              hround.order.subset (List.mem_append_right _ ht)).length_le
          rw [List.length_append, List.length_singleton] at hlonger
          omega
  | succ n ih =>
      cases ready with
      | nil => exact ⟨taken, returns_succ.mp (returns_const taken), h.order⟩
      | cons current ready =>
          have hround := h.round
          obtain ⟨sorted, hreturns, htaken⟩ := ih hround (by
            rw [List.length_append, List.length_singleton]
            omega) (by
            rw [List.length_append, List.length_singleton]
            omega)
          exact ⟨sorted, returns_succ.mp hreturns, htaken⟩

end Loop

/-- The sort of tasks that do not depend on themselves lists each of them once, after all its
dependencies. -/
theorem topologicalSortTasks_sorted (tasks : JobTasks) (h : Acyclic DependsOn tasks.rows) :
    ∃ sorted, Returns (topologicalSortTasks tasks.rows) sorted ∧ sorted.Perm tasks.rows ∧
      InOrder sorted := by
  obtain ⟨sorted, hloop, htaken⟩ := (@sorting_start tasks).loop
  have hperm := htaken.complete tasks.uniqueId.of_map h
  refine ⟨sorted, ?_, hperm, fun i j t u hi hj hdep => ?_⟩
  · cases hrows : tasks.rows with
    | nil =>
        rw [hrows, List.perm_nil] at hperm
        rw [hperm]
        exact returns_const []
    | cons t rest =>
        rw [hrows] at hloop
        exact hloop.congr fun _ => rfl
  · obtain ⟨hi', rfl⟩ := List.getElem?_eq_some_iff.mp hi
    obtain ⟨hj', rfl⟩ := List.getElem?_eq_some_iff.mp hj
    by_contra hle
    rcases (not_lt.mp hle).eq_or_lt with rfl | hlt
    · have hmem : sorted[i] ∈ tasks.rows := hperm.mem_iff.mp (List.getElem_mem hi')
      exact h _ (.single ⟨hmem, hmem, hdep⟩)
    · exact List.pairwise_iff_getElem.mp htaken.ordered i j hi' hj' hlt hdep

section Sample

/-- A task with its dependencies and nothing else of note. -/
def sampleTask (id : Uuid) (stage : String) (dependencies : List Uuid) : TaskModel where
  id := id
  stage := stage
  engineId := ""
  status := .pending
  dependencies := dependencies
  config := []
  requestUri := none
  responseUri := none
  retries := 0
  maxRetries := 0
  required := true
  error := none
  readyAt := none
  startedAt := none
  completedAt := none

/-- A diamond of tasks, one of them with a dependency that is not listed. -/
def diamond : JobTasks where
  rows := [sampleTask 3 "merge" [1, 2], sampleTask 2 "diarize" [0, 9],
    sampleTask 1 "transcribe" [0], sampleTask 0 "prepare" []]
  uniqueId := by decide
  uniqueLink := by decide

theorem diamond_acyclic : Acyclic DependsOn diamond.rows := by
  have hrank : ∀ t u : TaskModel, Relation.TransGen
      (fun t u => t ∈ diamond.rows ∧ u ∈ diamond.rows ∧ DependsOn t u) t u → u.id < t.id := by
    have hstep : ∀ t ∈ diamond.rows, ∀ u ∈ diamond.rows, u.id ∈ t.dependencies → u.id < t.id := by
      decide
    intro t u hpath
    induction hpath with
    | single hdep => exact hstep _ hdep.1 _ hdep.2.1 hdep.2.2
    | tail _ hdep ih => exact (hstep _ hdep.1 _ hdep.2.1 hdep.2.2).trans ih
  exact fun t hpath => lt_irrefl _ (hrank t t hpath)

theorem diamond_sorted : ∃ sorted, Returns (topologicalSortTasks diamond.rows) sorted ∧
    sorted.Perm diamond.rows ∧ InOrder sorted :=
  topologicalSortTasks_sorted diamond diamond_acyclic

example : (topologicalSortTasks diamond.rows 5).map (·.map (·.stage)) =
    some ["prepare", "diarize", "transcribe", "merge"] := by
  decide +kernel

end Sample

end Dalston.Gateway.TaskOrder
