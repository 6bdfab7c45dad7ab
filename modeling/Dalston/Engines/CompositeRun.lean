import Dalston.Foundation.Dict

/-!
# One run of a composite engine

A composite engine calls its children for the stages they cover: those of its parallel list at
once, then those of its sequential list one after the other. It merges what they answer into an
envelope under the names of the stages, from which the orchestrator takes the outputs of the stages
that the envelope lists as completed.

## Implementation notes

A call either returns data or fails. What the calls answer is given with the run, and so is the
order in which the parallel ones end. A call in the sequential list comes with the stages that have
failed before it. The form of a request is left out.
-/

namespace Dalston.Engines.Composite

open Foundation

structure ChildEngine where
  engineId : String
  stages : List String

/-- A composite engine: its children, and the two lists of its pipeline. -/
structure CompositeEngine where
  engineId : String
  children : List ChildEngine
  parallel : List String := []
  sequentialAfter : List String := []
  covered_once : (children.flatMap (·.stages)).Nodup := by decide

/-- What the calls return: those for the stages of the parallel phase, and those for the places of
the sequential list. -/
structure Answers (D : Type) where
  parallel : String → Option D
  sequential : Nat → Option D

/-- A call in the sequential list, with the results it is given and the stages that have failed. -/
structure TailCall (D : Type) where
  stage : String
  previousResults : Dict D
  failed : List String

/-- The results and errors so far, and the calls of the sequential list. -/
structure StageRun (D : Type) where
  results : Dict D := []
  errors : List String := []
  tail : List (TailCall D) := []

/-- What stands in an envelope. -/
inductive Value (D : Type)
  | text (s : String)
  | stages (names : List String)
  | data (d : D)
  | skipped (reason : String)
  | warnings (messages : List String)

abbrev Envelope (D : Type) := Dict (Value D)

section Run

variable {D : Type}

namespace CompositeEngine

/-- The stages that a child covers. -/
def stages (c : CompositeEngine) : List String := c.children.flatMap (·.stages)

/-- Neither list names a stage. -/
def Unlisted (c : CompositeEngine) : Prop := c.parallel = [] ∧ c.sequentialAfter = []

instance (c : CompositeEngine) : Decidable c.Unlisted := inferInstanceAs (Decidable (_ ∧ _))

/-- `parallel_stages`, which is all the stages if neither list names one. -/
def parallelStages (c : CompositeEngine) : List String :=
  if c.Unlisted then c.stages else c.parallel

/-- The stages of `parallel_children`. -/
def parallelChildren (c : CompositeEngine) : List String :=
  c.stages.filter (· ∈ c.parallelStages)

/-- An order in which the parallel calls end. -/
abbrev Completion (c : CompositeEngine) := { order : List String // order.Perm c.parallelChildren }

end CompositeEngine

def StageRun.record (r : StageRun D) (stage : String) : Option D → StageRun D
  | some d => { r with results := r.results.set stage d }
  | none => { r with errors := r.errors ++ [stage] }

def StageRun.call (r : StageRun D) (stage : String) (answer : Option D) : StageRun D :=
  StageRun.record { r with tail := r.tail ++ [⟨stage, r.results, r.errors⟩] } stage answer

/-- `_run_parallel`. -/
def runParallel (answers : Answers D) (order : List String) : StageRun D :=
  order.foldl (fun r stage => r.record stage (answers.parallel stage)) {}

namespace CompositeEngine

def runTail (c : CompositeEngine) (answers : Answers D) (r : StageRun D) : StageRun D :=
  c.sequentialAfter.zipIdx.foldl (fun r entry =>
    if entry.1 ∈ c.stages then r.call entry.1 (answers.sequential entry.2) else r) r

def run (c : CompositeEngine) (answers : Answers D) (order : c.Completion) : StageRun D :=
  c.runTail answers (runParallel answers order.val)

end CompositeEngine

/-- `f"{stage} child engine failed"`. -/
def skipReason (stage : String) : String := stage ++ " child engine failed"

/-- `_merge_results`. -/
def mergeResults (engineId : String) (results : Dict D) (errors : List String) : Envelope D :=
  let head : Envelope D :=
    [("engine_id", .text engineId), ("stages_completed", .stages (results.map Prod.fst))]
  let completed := head.merge (results.map fun kv => (kv.1, .data kv.2))
  let marked := completed.merge (errors.map fun stage => (stage, .skipped (skipReason stage)))
  if errors = [] then marked
  else marked.set "warnings" (.warnings (errors.map ("Stage failed: " ++ ·)))

/-- `_run_all`: the envelope of the run, which is a completed task. -/
def CompositeEngine.runAll (c : CompositeEngine) (answers : Answers D) (order : c.Completion) :
    Envelope D :=
  mergeResults c.engineId (c.run answers order).results (c.run answers order).errors

/-- What iterating over a value gives. -/
def Value.iterate (keysOf : D → List String) : Value D → List String
  | .text s => s.toList.map fun ch => String.ofList [ch]
  | .stages names => names
  | .data d => keysOf d
  | .skipped _ => ["skipped", "skip_reason"]
  | .warnings messages => messages

/-- The outputs that the orchestrator takes from an envelope for the stages listed in it. -/
def stageOutputs (keysOf : D → List String) (data : Envelope D) (stagesCompleted : Value D) :
    Envelope D :=
  (stagesCompleted.iterate keysOf).foldl (fun outputs stage =>
    match data.get? stage with
    | some output => outputs.set stage output
    | none => outputs) []

/-! ## The calls of a run -/

namespace CompositeEngine

def parallelCalls (c : CompositeEngine) (answers : Answers D) : List (String × Option D) :=
  c.parallelChildren.map fun stage => (stage, answers.parallel stage)

/-- The calls of the sequential list, each for a stage that a child covers. -/
def tailCalls (c : CompositeEngine) (answers : Answers D) : List (String × Option D) :=
  c.sequentialAfter.zipIdx.filterMap fun entry =>
    if entry.1 ∈ c.stages then some (entry.1, answers.sequential entry.2) else none

def calls (c : CompositeEngine) (answers : Answers D) : List (String × Option D) :=
  c.parallelCalls answers ++ c.tailCalls answers

end CompositeEngine

/-- What a run has kept of the calls so far. -/
structure StageRun.Records (calls : List (String × Option D)) (r : StageRun D) : Prop where
  error_iff : ∀ stage, stage ∈ r.errors ↔ (stage, none) ∈ calls
  key_iff : ∀ stage, stage ∈ r.results.map Prod.fst ↔ ∃ d, (stage, some d) ∈ calls
  result : ∀ stage d, r.results.get? stage = some d → (stage, some d) ∈ calls
  distinct : r.results.Distinct

namespace StageRun

variable {calls todo : List (String × Option D)} {r : StageRun D}

theorem Records.empty : Records [] ({} : StageRun D) where
  error_iff := by simp
  key_iff := by simp
  result := by simp
  distinct := List.nodup_nil

theorem mem_keys_set {m : Dict D} {stage other : String} {d : D} :
    other ∈ (m.set stage d).map Prod.fst ↔ other = stage ∨ other ∈ m.map Prod.fst := by
  have hcontains : ∀ n : Dict D, other ∈ n.map Prod.fst ↔ (n.get? other).isSome = true := by
    intro n
    rw [← Dict.contains, Dict.contains_iff, List.mem_map]
  rw [hcontains, hcontains, Dict.get?_set]
  by_cases h : stage = other
  · simp [h]
  · simp [h, Ne.symm h]

theorem Records.record (h : r.Records calls) (stage : String) (answer : Option D) :
    (r.record stage answer).Records (calls ++ [(stage, answer)]) := by
  cases answer with
  | none =>
      refine ⟨fun s => ?_, fun s => ?_, fun s d hs => ?_, h.distinct⟩
      · simp [StageRun.record, h.error_iff]
      · simpa [StageRun.record] using h.key_iff s
      · exact List.mem_append_left _ (h.result s d hs)
  | some d =>
      refine ⟨fun s => ?_, fun s => ?_, fun s e hs => ?_, h.distinct.set stage d⟩
      · simpa [StageRun.record] using h.error_iff s
      · rw [StageRun.record, mem_keys_set, h.key_iff]
        simp only [List.mem_append, List.mem_singleton, Prod.mk.injEq, Option.some.injEq]
        grind
      · rw [StageRun.record, Dict.get?_set] at hs
        split at hs
        · rename_i heq
          simp [heq, Option.some.inj hs]
        · exact List.mem_append_left _ (h.result s e hs)

theorem Records.call (h : r.Records calls) (stage : String) (answer : Option D) :
    (r.call stage answer).Records (calls ++ [(stage, answer)]) :=
  Records.record (r := { r with tail := r.tail ++ [⟨stage, r.results, r.errors⟩] })
    ⟨h.error_iff, h.key_iff, h.result, h.distinct⟩ stage answer

/-- What is kept does not depend on the order of the calls. -/
theorem Records.perm (h : r.Records calls) {calls' : List (String × Option D)}
    (hperm : calls.Perm calls') : r.Records calls' where
  error_iff stage := (h.error_iff stage).trans hperm.mem_iff
  key_iff stage := (h.key_iff stage).trans (exists_congr fun _ => hperm.mem_iff)
  result stage d hd := hperm.mem_iff.mp (h.result stage d hd)
  distinct := h.distinct

end StageRun

theorem records_runParallel (answers : Answers D) (order : List String) :
    (runParallel answers order).Records
      (order.map fun stage => (stage, answers.parallel stage)) := by
  have hrun : ∀ (todo : List String) (calls : List (String × Option D)) (r : StageRun D),
      r.Records calls →
      (todo.foldl (fun r stage => r.record stage (answers.parallel stage)) r).Records
        (calls ++ todo.map fun stage => (stage, answers.parallel stage)) := by
    intro todo
    induction todo with
    | nil => intro calls r h; simpa using h
    | cons stage rest ih =>
        intro calls r h
        simpa [List.append_assoc] using ih _ _ (h.record stage (answers.parallel stage))
  exact hrun order [] {} StageRun.Records.empty

/-- The stage whose results a request of this stage carries. -/
def inputStage (stage : String) : Option String :=
  if stage = "align" then some "transcribe" else none

/-- The input stage of the call has not failed. -/
def TailCall.Fed (call : TailCall D) : Prop :=
  ∀ input, inputStage call.stage = some input → input ∉ call.failed

/-- No call of a list comes after a failed one of its input stage. -/
def FedAfter (done todo : List (String × Option D)) : Prop :=
  ∀ before stage answer behind, todo = before ++ (stage, answer) :: behind →
    ∀ input, inputStage stage = some input → (input, none) ∉ done ++ before

theorem fedAfter_cons {done rest : List (String × Option D)} {call : String × Option D} :
    FedAfter done (call :: rest) ↔
      (∀ input, inputStage call.1 = some input → (input, none) ∉ done) ∧
        FedAfter (done ++ [call]) rest := by
  constructor
  · intro h
    refine ⟨fun input hinput => ?_, fun before stage answer behind hrest input hinput => ?_⟩
    · simpa using h [] call.1 call.2 rest rfl input hinput
    · simpa using h (call :: before) stage answer behind (by rw [hrest]; rfl) input hinput
  · rintro ⟨hfirst, hrest⟩ (_ | ⟨first, before⟩) stage answer behind h input hinput
    · obtain ⟨rfl, -⟩ := List.cons.inj h
      simpa using hfirst input hinput
    · obtain ⟨rfl, hbehind⟩ := List.cons.inj h
      simpa using hrest before stage answer behind hbehind input hinput

theorem tail_record (r : StageRun D) (stage : String) (answer : Option D) :
    (r.record stage answer).tail = r.tail := by
  cases answer <;> rfl

theorem tail_call (r : StageRun D) (stage : String) (answer : Option D) :
    (r.call stage answer).tail = r.tail ++ [⟨stage, r.results, r.errors⟩] := by
  rw [StageRun.call, tail_record]

/-- What a sequence of calls keeps, and when the input stages of its calls have not failed. -/
theorem foldl_call (todo : List (String × Option D)) {done : List (String × Option D)}
    {r : StageRun D} (h : r.Records done) :
    (todo.foldl (fun r call => r.call call.1 call.2) r).Records (done ++ todo) ∧
      ((∀ call ∈ (todo.foldl (fun r call => r.call call.1 call.2) r).tail, call.Fed) ↔
        (∀ call ∈ r.tail, call.Fed) ∧ FedAfter done todo) := by
  induction todo generalizing done r with
  | nil =>
      refine ⟨by simpa using h, ?_⟩
      simp [FedAfter]
  | cons call rest ih =>
      obtain ⟨hrecords, hfed⟩ := ih (h.call call.1 call.2)
      have hnew : (TailCall.mk call.1 r.results r.errors).Fed ↔
          ∀ input, inputStage call.1 = some input → (input, none) ∉ done :=
        forall₂_congr fun input _ => not_congr (h.error_iff input)
      refine ⟨by simpa [List.append_assoc] using hrecords, ?_⟩
      rw [List.foldl_cons, hfed, tail_call, fedAfter_cons, ← hnew]
      simp only [List.forall_mem_append, List.forall_mem_singleton, and_assoc]

namespace CompositeEngine

variable (c : CompositeEngine) (answers : Answers D)

theorem runTail_eq (r : StageRun D) :
    c.runTail answers r = (c.tailCalls answers).foldl (fun r call => r.call call.1 call.2) r := by
  rw [runTail, tailCalls, List.foldl_filterMap]
  congr 1
  funext r entry
  split <;> rfl

theorem records_run (order : c.Completion) : (c.run answers order).Records (c.calls answers) := by
  rw [run, runTail_eq]
  refine (foldl_call _ (records_runParallel answers order.val)).1.perm ?_
  exact (order.2.map _).append_right _

theorem fed_run (order : c.Completion) : (∀ call ∈ (c.run answers order).tail, call.Fed) ↔
    FedAfter (c.parallelCalls answers) (c.tailCalls answers) := by
  have hparallel := (records_runParallel answers order.val).perm (order.2.map _)
  have htail : (runParallel answers order.val).tail = [] := by
    rw [runParallel]
    generalize order.val = stages
    induction stages using List.reverseRecOn with
    | nil => rfl
    | append_singleton stages stage ih => simp [tail_record, ih]
  rw [run, runTail_eq, (foldl_call _ hparallel).2, htail]
  exact and_iff_right (by simp)

end CompositeEngine

/-! ## What an envelope says -/

/-- Entries with distinct keys replace those of a dict. -/
theorem get?_merge_of_distinct {V : Type} (m : Dict V) {e : Dict V} (h : e.Distinct)
    (key : String) : (m.merge e).get? key = (e.get? key).or (m.get? key) := by
  induction e generalizing m with
  | nil => simp
  | cons kv rest ih =>
      obtain ⟨hnew, hrest⟩ := List.nodup_cons.mp h
      rw [Dict.merge_cons, ih _ hrest, Dict.get?_set, Dict.get?_cons]
      by_cases hk : kv.1 = key
      · subst hk
        simp [Dict.get?_eq_none hnew]
      · simp [hk]

theorem get?_map_data (results : Dict D) (stage : String) :
    Dict.get? (results.map fun kv => (kv.1, Value.data kv.2)) stage =
      (results.get? stage).map .data := by
  induction results with
  | nil => rfl
  | cons kv rest ih =>
      rw [List.map_cons, Dict.get?_cons, Dict.get?_cons]
      split
      · rfl
      · exact ih

theorem get?_merge_skipped (m : Envelope D) (errors : List String) (stage : String) :
    (m.merge (errors.map fun s => (s, .skipped (skipReason s)))).get? stage =
      if stage ∈ errors then some (.skipped (skipReason stage)) else m.get? stage := by
  induction errors generalizing m with
  | nil => simp
  | cons failed rest ih =>
      rw [List.map_cons, Dict.merge_cons, ih, Dict.get?_set]
      by_cases hrest : stage ∈ rest
      · simp [hrest]
      · by_cases heq : failed = stage
        · simp [heq]
        · simp [hrest, heq, Ne.symm heq]

/-- What stands under a name: the warnings, if there are any, before the mark of a failed stage,
before the data of a stage, before the head of the envelope. -/
theorem get?_mergeResults (engineId : String) {results : Dict D} (h : results.Distinct)
    (errors : List String) (stage : String) :
    (mergeResults engineId results errors).get? stage =
      if errors ≠ [] ∧ stage = "warnings" then
        some (.warnings (errors.map ("Stage failed: " ++ ·)))
      else if stage ∈ errors then some (.skipped (skipReason stage))
      else ((results.get? stage).map .data).or (Dict.get?
        [("engine_id", .text engineId), ("stages_completed", .stages (results.map Prod.fst))]
        stage) := by
  have hdata : Dict.Distinct (results.map fun kv => (kv.1, Value.data kv.2)) := by
    rw [Dict.Distinct, List.map_map]
    exact h
  have hmarked := get?_merge_skipped
    (Dict.merge
      [("engine_id", .text engineId), ("stages_completed", .stages (results.map Prod.fst))]
      (results.map fun kv => (kv.1, Value.data kv.2))) errors stage
  rw [get?_merge_of_distinct _ hdata, get?_map_data] at hmarked
  simp only [mergeResults]
  by_cases herrors : errors = []
  · simpa [herrors] using hmarked
  · rw [if_neg herrors, Dict.get?_set, hmarked]
    by_cases hw : stage = "warnings"
    · simp [hw, herrors]
    · simp [hw, Ne.symm hw]

/-- The orchestrator takes for a stage what stands under its name. -/
theorem get?_of_stageOutputs {keysOf : D → List String} {data : Envelope D} {names : List String}
    {stage : String} {output : Value D}
    (h : (stageOutputs keysOf data (.stages names)).get? stage = some output) :
    stage ∈ names ∧ data.get? stage = some output := by
  have hfold : ∀ (todo : List String) (outputs : Envelope D),
      (∀ s v, outputs.get? s = some v → s ∈ names ∧ data.get? s = some v) →
      (∀ s ∈ todo, s ∈ names) → ∀ s v,
      (todo.foldl (fun outputs s => match data.get? s with
        | some v => outputs.set s v
        | none => outputs) outputs).get? s = some v → s ∈ names ∧ data.get? s = some v := by
    intro todo
    induction todo with
    | nil => exact fun _ houtputs _ => houtputs
    | cons first rest ih =>
        intro outputs houtputs htodo
        refine ih _ (fun s v hs => ?_) fun s hs => htodo s (List.mem_cons_of_mem _ hs)
        dsimp only at hs
        split at hs
        · rename_i w hw
          rw [Dict.get?_set] at hs
          split at hs
          · rename_i heq
            subst heq
            exact ⟨htodo _ List.mem_cons_self, hw.trans hs⟩
          · exact houtputs s v hs
        · exact houtputs s v hs
  exact hfold names [] (by simp) (fun _ hs => hs) stage output h

namespace CompositeEngine

variable (c : CompositeEngine) (answers : Answers D)

/-- A call for the stage returns the data. -/
def Returned (stage : String) (d : D) : Prop := (stage, some d) ∈ c.calls answers

/-- A call for the stage fails. -/
def Failed (stage : String) : Prop := (stage, none) ∈ c.calls answers

/-- The stage is covered by a child or listed in the pipeline. -/
def Configured (stage : String) : Prop :=
  stage ∈ c.stages ∨ stage ∈ c.parallel ∨ stage ∈ c.sequentialAfter

/-- What the envelope of a run is to say, and what it is not to lead the orchestrator to. -/
structure RightEnvelope (keysOf : D → List String) (order : c.Completion) : Prop where
  completed : ∃ names, (c.runAll answers order).get? "stages_completed" = some (.stages names) ∧
    (∀ stage, stage ∈ names ↔ ∃ d, c.Returned answers stage d) ∧
    ∀ stage ∈ names, ∃ d, (c.runAll answers order).get? stage = some (.data d) ∧
      c.Returned answers stage d
  skipped : ∀ stage, c.Configured stage → (¬ ∃ d, c.Returned answers stage d) →
    ∃ reason, (c.runAll answers order).get? stage = some (.skipped reason)
  fed : ∀ call ∈ (c.run answers order).tail, call.Fed
  outputs : ∀ v, (c.runAll answers order).get? "stages_completed" = some v → ∀ stage reason,
    (stageOutputs keysOf (c.runAll answers order) v).get? stage ≠ some (.skipped reason)

/-- When a run keeps to what its envelope is to say. -/
structure Settled : Prop where
  listed : c.Unlisted ∨ ∀ stage, stage ∈ c.stages ↔ stage ∈ c.parallel ∨ stage ∈ c.sequentialAfter
  once : ∀ stage d, c.Returned answers stage d → ¬ c.Failed answers stage
  fed : FedAfter (c.parallelCalls answers) (c.tailCalls answers)
  names : "stages_completed" ∉ c.stages
  warnings : "warnings" ∈ c.stages → ∀ stage, ¬ c.Failed answers stage

variable {c answers}

theorem mem_calls_keys {stage : String} : stage ∈ (c.calls answers).map Prod.fst ↔
    stage ∈ c.stages ∧ (c.Unlisted ∨ stage ∈ c.parallel ∨ stage ∈ c.sequentialAfter) := by
  have htail : stage ∈ (c.tailCalls answers).map Prod.fst ↔
      stage ∈ c.stages ∧ stage ∈ c.sequentialAfter := by
    simp only [tailCalls, List.mem_map, List.mem_filterMap]
    constructor
    · rintro ⟨call, ⟨entry, hentry, hcall⟩, rfl⟩
      split at hcall
      · rename_i hcovered
        obtain rfl := Option.some.inj hcall
        exact ⟨hcovered, (List.mem_zipIdx hentry).2.2 ▸ List.getElem_mem _⟩
      · cases hcall
    · rintro ⟨hcovered, hlisted⟩
      obtain ⟨i, hi, rfl⟩ := List.getElem_of_mem hlisted
      exact ⟨_, ⟨(c.sequentialAfter[i], i), List.mem_zipIdx_iff_getElem?.mpr (by simp [hi]),
        if_pos hcovered⟩, rfl⟩
  have hparallel : stage ∈ (c.parallelCalls answers).map Prod.fst ↔
      stage ∈ c.stages ∧ (c.Unlisted ∨ stage ∈ c.parallel) := by
    rw [parallelCalls, List.map_map, parallelChildren, parallelStages]
    by_cases hunlisted : c.Unlisted
    · simp [hunlisted]
    · simp [hunlisted]
  rw [calls, List.map_append, List.mem_append, htail, hparallel]
  tauto

theorem called_iff {stage : String} : stage ∈ (c.calls answers).map Prod.fst ↔
    (∃ d, c.Returned answers stage d) ∨ c.Failed answers stage := by
  constructor
  · intro h
    obtain ⟨⟨s, answer⟩, hcall, rfl⟩ := List.mem_map.mp h
    cases answer with
    | none => exact .inr hcall
    | some d => exact .inl ⟨d, hcall⟩
  · rintro (⟨d, hcall⟩ | hcall)
    · exact List.mem_map_of_mem (f := Prod.fst) hcall
    · exact List.mem_map_of_mem (f := Prod.fst) hcall

theorem covered_of_failed {stage : String} (h : c.Failed answers stage) : stage ∈ c.stages :=
  (mem_calls_keys.mp (called_iff.mpr (.inr h))).1

theorem covered_of_returned {stage : String} {d : D} (h : c.Returned answers stage d) :
    stage ∈ c.stages :=
  (mem_calls_keys.mp (called_iff.mpr (.inl ⟨d, h⟩))).1

variable {order : c.Completion}

theorem runAll_warnings (order : c.Completion) (h : ∃ stage, c.Failed answers stage) :
    ∃ messages, (c.runAll answers order).get? "warnings" = some (.warnings messages) := by
  obtain ⟨stage, hfailed⟩ := h
  have hrecords := c.records_run answers order
  have herrors : (c.run answers order).errors ≠ [] :=
    List.ne_nil_of_mem ((hrecords.error_iff stage).mpr hfailed)
  rw [runAll, get?_mergeResults _ hrecords.distinct, if_pos ⟨herrors, rfl⟩]
  exact ⟨_, rfl⟩

theorem runAll_failed {stage : String} (h : c.Failed answers stage) (hname : stage ≠ "warnings") :
    (c.runAll answers order).get? stage = some (.skipped (skipReason stage)) := by
  have hrecords := c.records_run answers order
  rw [runAll, get?_mergeResults _ hrecords.distinct, if_neg (fun hw => hname hw.2),
    if_pos ((hrecords.error_iff stage).mpr h)]

/-- A stage is marked as skipped only if a call for it has failed. -/
theorem failed_of_skipped {stage reason : String}
    (h : (c.runAll answers order).get? stage = some (.skipped reason)) :
    c.Failed answers stage := by
  have hrecords := c.records_run answers order
  rw [runAll, get?_mergeResults _ hrecords.distinct] at h
  split at h
  · cases h
  split at h
  · exact (hrecords.error_iff stage).mp ‹_›
  · cases hres : (c.run answers order).results.get? stage with
    | some d => simp [hres] at h
    | none =>
        rw [hres, Option.map_none, Option.none_or, Dict.get?_cons, Dict.get?_cons] at h
        split_ifs at h <;> cases h

theorem runAll_returned {stage : String} {d : D} (h : c.Returned answers stage d)
    (hfailed : ¬ c.Failed answers stage)
    (hwarnings : stage = "warnings" → ∀ s, ¬ c.Failed answers s) :
    ∃ d', (c.runAll answers order).get? stage = some (.data d') ∧
      c.Returned answers stage d' := by
  have hrecords := c.records_run answers order
  obtain ⟨⟨s, d'⟩, hmem, rfl⟩ := List.mem_map.mp ((hrecords.key_iff stage).mpr ⟨d, h⟩)
  have hget := hrecords.distinct.get?_of_mem hmem
  refine ⟨d', ?_, hrecords.result s d' hget⟩
  have hnone : ¬ ((c.run answers order).errors ≠ [] ∧ s = "warnings") := by
    rintro ⟨herrors, hs⟩
    obtain ⟨failed, hmem⟩ := List.exists_mem_of_ne_nil _ herrors
    exact hwarnings hs failed ((hrecords.error_iff failed).mp hmem)
  rw [runAll, get?_mergeResults _ hrecords.distinct, if_neg hnone,
    if_neg fun hmem => hfailed ((hrecords.error_iff s).mp hmem), hget]
  rfl

theorem runAll_completed (h : "stages_completed" ∉ c.stages) :
    (c.runAll answers order).get? "stages_completed" =
      some (.stages ((c.run answers order).results.map Prod.fst)) := by
  have hrecords := c.records_run answers order
  have hres : (c.run answers order).results.get? "stages_completed" = none := by
    cases hget : (c.run answers order).results.get? "stages_completed" with
    | none => rfl
    | some d => exact absurd (covered_of_returned (hrecords.result _ d hget)) h
  rw [runAll, get?_mergeResults _ hrecords.distinct, if_neg (by simp),
    if_neg fun hmem => h (covered_of_failed ((hrecords.error_iff _).mp hmem)), hres]
  rfl

theorem RightEnvelope.of_settled {keysOf : D → List String} (h : c.Settled answers) :
    c.RightEnvelope answers keysOf order := by
  have hrecords := c.records_run answers order
  have hdata : ∀ stage ∈ (c.run answers order).results.map Prod.fst, ∃ d,
      (c.runAll answers order).get? stage = some (.data d) ∧ c.Returned answers stage d := by
    intro stage hstage
    obtain ⟨d, hd⟩ := (hrecords.key_iff stage).mp hstage
    exact runAll_returned hd (h.once stage d hd) fun hw =>
      h.warnings (hw ▸ covered_of_returned hd)
  refine ⟨⟨_, runAll_completed h.names, hrecords.key_iff, hdata⟩, ?_,
    (c.fed_run answers order).mpr h.fed, ?_⟩
  · intro stage hconfigured hreturned
    have hcalled : stage ∈ (c.calls answers).map Prod.fst := by
      refine mem_calls_keys.mpr ?_
      rcases h.listed with hunlisted | hlisted
      · refine ⟨hconfigured.resolve_right ?_, .inl hunlisted⟩
        simp [hunlisted.1, hunlisted.2]
      · rcases hconfigured with hcovered | hlist
        · exact ⟨hcovered, .inr ((hlisted stage).mp hcovered)⟩
        · exact ⟨(hlisted stage).mpr hlist, .inr hlist⟩
    have hfailed : c.Failed answers stage := (called_iff.mp hcalled).resolve_left hreturned
    refine ⟨_, runAll_failed hfailed ?_⟩
    rintro rfl
    exact h.warnings (covered_of_failed hfailed) _ hfailed
  · intro v hv stage reason houtput
    obtain rfl := Option.some.inj ((runAll_completed h.names).symm.trans hv)
    obtain ⟨hmem, hskipped⟩ := get?_of_stageOutputs houtput
    obtain ⟨d, hd, -⟩ := hdata stage hmem
    rw [hd] at hskipped
    cases hskipped

theorem Settled.of_rightEnvelope {keysOf : D → List String}
    (h : c.RightEnvelope answers keysOf order) : c.Settled answers := by
  obtain ⟨⟨names, hcompleted, hnames, hdata⟩, hskipped, hfed, -⟩ := h
  -- a configured stage has been called, and its entry is data or the mark
  have hentry : ∀ stage, c.Configured stage → stage ∈ (c.calls answers).map Prod.fst ∧
      ((∃ d, (c.runAll answers order).get? stage = some (.data d)) ∨
        ∃ reason, (c.runAll answers order).get? stage = some (.skipped reason)) := by
    intro stage hconfigured
    by_cases hreturned : ∃ d, c.Returned answers stage d
    · obtain ⟨d, hd, -⟩ := hdata stage ((hnames stage).mpr hreturned)
      exact ⟨called_iff.mpr (.inl hreturned), .inl ⟨d, hd⟩⟩
    · obtain ⟨reason, hreason⟩ := hskipped stage hconfigured hreturned
      exact ⟨called_iff.mpr (.inr (failed_of_skipped hreason)), .inr ⟨reason, hreason⟩⟩
  refine ⟨?_, ?_, (c.fed_run answers order).mp hfed, ?_, ?_⟩
  · by_cases hunlisted : c.Unlisted
    · exact .inl hunlisted
    · refine .inr fun stage => ⟨fun hcovered => ?_, fun hlisted => ?_⟩
      · exact (mem_calls_keys.mp (hentry stage (.inl hcovered)).1).2.resolve_left hunlisted
      · exact (mem_calls_keys.mp (hentry stage (.inr hlisted)).1).1
  · intro stage d hreturned hfailed
    obtain ⟨d', hd', -⟩ := hdata stage ((hnames stage).mpr ⟨d, hreturned⟩)
    by_cases hname : stage = "warnings"
    · subst hname
      obtain ⟨messages, hmessages⟩ := runAll_warnings order ⟨_, hfailed⟩
      rw [hmessages] at hd'
      cases hd'
    · rw [runAll_failed hfailed hname] at hd'
      cases hd'
  · intro hcovered
    rcases (hentry _ (.inl hcovered)).2 with ⟨d, hd⟩ | ⟨reason, hreason⟩
    · rw [hcompleted] at hd
      cases hd
    · rw [hcompleted] at hreason
      cases hreason
  · intro hcovered stage hfailed
    obtain ⟨messages, hmessages⟩ := runAll_warnings order ⟨stage, hfailed⟩
    rcases (hentry _ (.inl hcovered)).2 with ⟨d, hd⟩ | ⟨reason, hreason⟩
    · rw [hmessages] at hd
      cases hd
    · rw [hmessages] at hreason
      cases hreason

end CompositeEngine

/-- For every composite engine, whatever its children answer and in whatever order, the envelope
is right exactly if the run is settled. -/
theorem runAll_right_iff (c : CompositeEngine) (answers : Answers D) (keysOf : D → List String)
    (order : c.Completion) : c.RightEnvelope answers keysOf order ↔ c.Settled answers :=
  ⟨.of_rightEnvelope, .of_settled⟩

end Run

/-- Transcription and diarization in parallel, the alignment after them. -/
def whisperAlignPyannote : CompositeEngine where
  engineId := "whisper-align-pyannote"
  children := [⟨"faster-whisper", ["transcribe"]⟩, ⟨"phoneme-align", ["align"]⟩,
    ⟨"pyannote-4.0", ["diarize"]⟩]
  parallel := ["transcribe", "diarize"]
  sequentialAfter := ["align"]

/-- Only the diarization succeeds. -/
def transcribeFails : Answers Nat where
  parallel stage := if stage = "diarize" then some 1 else none
  sequential _ := none

/-- The alignment is called after the transcription has failed. -/
theorem align_called_without_transcript :
    (whisperAlignPyannote.run transcribeFails ⟨["transcribe", "diarize"], .refl _⟩).tail.map
        (fun call => (call.stage, call.previousResults, call.failed)) =
      [("align", [("diarize", 1)], ["transcribe"])] ∧
    ¬ whisperAlignPyannote.RightEnvelope transcribeFails (fun _ => [])
      ⟨["transcribe", "diarize"], .refl _⟩ := by
  have htail : (whisperAlignPyannote.run transcribeFails
      ⟨["transcribe", "diarize"], .refl _⟩).tail =
      [⟨"align", [("diarize", 1)], ["transcribe"]⟩] := rfl
  refine ⟨by rw [htail]; rfl, fun hright => ?_⟩
  have hfed := hright.fed ⟨"align", [("diarize", 1)], ["transcribe"]⟩ (by simp [htail])
  exact hfed "transcribe" rfl List.mem_cons_self

end Dalston.Engines.Composite
