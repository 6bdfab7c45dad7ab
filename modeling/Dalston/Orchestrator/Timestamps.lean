import Dalston.Orchestrator.Dag

/-!
# Word timestamps in the selector, the builder and the assembly

The engine selector, the task DAG builder and the transcript assembly each read
`word_timestamps` and `timestamps_granularity` from job parameters. The builder
reads the effective parameters of the selector, the assembly those of the job.

## Implementation notes

The outcome of `select_engine` for a stage is an argument. The assembly records
the request as it is passed to `assemble_transcript`.
-/

namespace Dalston.Orchestrator

open Foundation Model

def MODEL_PARAM_ALIGN : String := "model_align"

/-- What the selection of the engine of one stage raises. -/
inductive SelectionError
  | noDownloadedModel
  | noCapableEngine
  | modelSelection

/-- The selected engine of a stage with the capabilities that shape the pipeline. -/
structure EngineSelectionResult extends StageSelection where
  supportsWordTimestamps : Bool
  includesDiarization : Bool

section Decisions

variable (parameters : Config)

/-- The request as the engine selector reads it. -/
def wantsWordTimestamps : Bool :=
  match parameters.get? "word_timestamps", parameters.get? "timestamps_granularity" with
  | some value, _ => value.truthy
  | none, some granularity => granularity.equalsText "word"
  | none, none => true

def shouldAddAlignment (transcribe : EngineSelectionResult) : Bool :=
  wantsWordTimestamps parameters && !transcribe.supportsWordTimestamps

def shouldAddDiarization (transcribe : EngineSelectionResult) : Bool :=
  Json.equalsText "diarize" (parameters.getD "speaker_detection" (.str "none")) &&
    !transcribe.includesDiarization

/-- The request as the transcript assembly reads it. -/
def wordTimestampsRequested : Bool :=
  match parameters.get? "timestamps_granularity" with
  | some granularity => granularity.equalsText "word"
  | none => (parameters.getD "word_timestamps" (.bool true)).truthy

/-- The parameters of a job that falls back to segment timestamps. -/
def segmentTimestamps : Config :=
  (parameters.set "word_timestamps" (.bool false)).set "timestamps_granularity" (.str "segment")

end Decisions

section Selector

variable (selectEngine : String → Except SelectionError EngineSelectionResult)

/-- The engine of a stage that may not be needed. -/
def selectStage (wanted : Bool) (stage : String) :
    Except SelectionError (Dict EngineSelectionResult) :=
  if wanted then (selectEngine stage).map fun selected => [(stage, selected)] else .ok []

/-- The alignment engine and the effective parameters. -/
def selectAlign (parameters : Config) (transcribe : EngineSelectionResult) :
    Except SelectionError (Dict EngineSelectionResult × Config) :=
  if shouldAddAlignment parameters transcribe then
    match selectEngine "align" with
    | .ok selected => .ok ([("align", selected)], parameters)
    | .error .modelSelection => .error .modelSelection
    | .error error =>
        -- a pinned alignment model stays strict
        if flag parameters MODEL_PARAM_ALIGN then .error error
        else .ok ([], segmentTimestamps parameters)
  else .ok ([], parameters)

def selectPipelineEngines (parameters : Config) : Except SelectionError Selection := do
  let prepare ← selectEngine "prepare"
  let transcribe ← selectEngine "transcribe"
  let align ← selectAlign selectEngine parameters transcribe
  let diarize ← selectStage selectEngine (shouldAddDiarization align.2 transcribe) "diarize"
  let pii ← selectStage selectEngine (flag align.2 "pii_detection") "pii_detect"
  let redact ← selectStage selectEngine
    (flag align.2 "pii_detection" && flag align.2 "redact_pii_audio") "audio_redact"
  let stages := [("prepare", prepare), ("transcribe", transcribe)] ++ align.1 ++ diarize ++ pii
    ++ redact
  return ⟨stages.map fun kv => (kv.1, kv.2.toStageSelection), align.2⟩

end Selector

/-- A task that aligns words. -/
def IsAlignment (task : Task) : Prop := "align".toList <+: task.stage.toList

instance (task : Task) : Decidable (IsAlignment task) :=
  inferInstanceAs (Decidable ("align".toList <+: task.stage.toList))

/-- The three readers of one job take the same decision, a word alignment never runs
for words nobody requested, and requested words have an engine that must produce them. -/
structure WordRequestsAgree (parameters : Config) (transcribe : EngineSelectionResult)
    (selection : Selection) : Prop where
  builder : wordTimestamps selection.effectiveParameters = .ok (wantsWordTimestamps parameters)
  assembly : wordTimestampsRequested parameters = wantsWordTimestamps parameters
  used : ∀ (uuid4 : Nat → Uuid) (audioUri : String) (speechRegions : Bool) (tasks : List Task),
    buildTasks uuid4 audioUri speechRegions selection = .ok tasks →
    (∃ t ∈ tasks, IsAlignment t) → wordTimestampsRequested parameters = true
  required : wordTimestampsRequested parameters = true →
    transcribe.supportsWordTimestamps = true ∨ selection.stages.contains "align" = true

/-- The two parameters of the request have values that every reader takes the same way. -/
def ClearRequest (parameters : Config) : Prop :=
  match parameters.get? "word_timestamps", parameters.get? "timestamps_granularity" with
  | some value, some granularity => value.truthy = granularity.equalsText "word"
  | none, some (.str granularity) => granularity ∈ VALID_TIMESTAMPS_GRANULARITIES
  | none, some _ => False
  | _, none => True

/-- Alignment is needed and no engine for it is found. -/
def LacksAligner (selectEngine : String → Except SelectionError EngineSelectionResult)
    (parameters : Config) (transcribe : EngineSelectionResult) : Prop :=
  shouldAddAlignment parameters transcribe = true ∧ ∀ engine, selectEngine "align" ≠ .ok engine

section Readers

variable {parameters : Config}

theorem builder_unknown (granularity : Json)
    (hwords : parameters.get? "word_timestamps" = none)
    (hgranularity : parameters.get? "timestamps_granularity" = some granularity) :
    wordTimestamps parameters = .ok (granularity.equalsText "word") ↔
      ∃ text, granularity = .str text ∧ text ∈ VALID_TIMESTAMPS_GRANULARITIES := by
  simp only [wordTimestamps, hwords, hgranularity]
  cases granularity with
  | str text =>
      by_cases hmem : text ∈ VALID_TIMESTAMPS_GRANULARITIES
      · simp [oneOf, Json.equalsText, hmem, pure, Except.pure, bind, Except.bind]
      · have hne : text ≠ "word" := fun heq => hmem (heq ▸ by decide)
        simp [oneOf, Json.equalsText, hmem, hne, pure, Except.pure, bind, Except.bind]
  | null => simp [oneOf, Json.equalsText, pure, Except.pure, bind, Except.bind]
  | bool b => simp [oneOf, Json.equalsText, pure, Except.pure, bind, Except.bind]
  | num q => simp [oneOf, Json.equalsText, pure, Except.pure, bind, Except.bind]
  | arr items => simp [oneOf, Json.equalsText, bind, Except.bind]
  | obj fields => simp [oneOf, Json.equalsText, bind, Except.bind]

/-- The three readers agree on the same parameters exactly when the request is clear. -/
theorem readers_agree_iff :
    (wordTimestamps parameters = .ok (wantsWordTimestamps parameters) ∧
      wordTimestampsRequested parameters = wantsWordTimestamps parameters) ↔
      ClearRequest parameters := by
  cases hwords : parameters.get? "word_timestamps" with
  | some value =>
      cases hgranularity : parameters.get? "timestamps_granularity" with
      | some granularity =>
          simp only [wordTimestamps, wantsWordTimestamps, wordTimestampsRequested, ClearRequest,
            hwords, hgranularity, true_and]
          exact eq_comm
      | none =>
          simp [wordTimestamps, wantsWordTimestamps, wordTimestampsRequested, ClearRequest,
            Dict.getD, hwords, hgranularity]
  | none =>
      cases hgranularity : parameters.get? "timestamps_granularity" with
      | some granularity =>
          have hwants : wantsWordTimestamps parameters = granularity.equalsText "word" := by
            simp [wantsWordTimestamps, hwords, hgranularity]
          have hrequested : wordTimestampsRequested parameters = granularity.equalsText "word" := by
            simp [wordTimestampsRequested, hgranularity]
          rw [hwants, hrequested, builder_unknown granularity hwords hgranularity]
          cases granularity <;> simp [ClearRequest, hwords, hgranularity]
      | none =>
          simp [wordTimestamps, wantsWordTimestamps, wordTimestampsRequested, ClearRequest,
            Dict.getD, Json.truthy, hwords, hgranularity]

end Readers

section Selected

variable {selectEngine : String → Except SelectionError EngineSelectionResult}
  {parameters : Config} {transcribe : EngineSelectionResult}

/-- Everything the selection of the aligner can end with. -/
theorem selectAlign_cases {stages : Dict EngineSelectionResult} {effective : Config}
    (h : selectAlign selectEngine parameters transcribe = .ok (stages, effective)) :
    (shouldAddAlignment parameters transcribe = true ∧
      (∃ engine, selectEngine "align" = .ok engine ∧ stages = [("align", engine)]) ∧
      effective = parameters) ∨
    (shouldAddAlignment parameters transcribe = false ∧ stages = [] ∧ effective = parameters) ∨
    (LacksAligner selectEngine parameters transcribe ∧ stages = [] ∧
      effective = segmentTimestamps parameters) := by
  unfold selectAlign at h
  split at h
  · rename_i hadd
    cases hselect : selectEngine "align" with
    | ok engine =>
        simp only [hselect, Except.ok.injEq, Prod.mk.injEq] at h
        exact Or.inl ⟨hadd, ⟨engine, rfl, h.1.symm⟩, h.2.symm⟩
    | error error =>
        have hlacks : LacksAligner selectEngine parameters transcribe := by
          constructor
          · exact hadd
          · intro engine hengine
            rw [hselect] at hengine
            cases hengine
        rw [hselect] at h
        cases error <;> simp only [reduceCtorEq] at h
        all_goals
          split at h
          · cases h
          · simp only [Except.ok.injEq, Prod.mk.injEq] at h
            exact Or.inr (Or.inr ⟨hlacks, h.1.symm, h.2.symm⟩)
  · rename_i hadd
    simp only [Except.ok.injEq, Prod.mk.injEq] at h
    exact Or.inr (Or.inl ⟨by simpa using hadd, h.1.symm, h.2.symm⟩)

theorem selectStage_ne_align {wanted : Bool} {stage : String} {stages : Dict EngineSelectionResult}
    (hstage : stage ≠ "align") (h : selectStage selectEngine wanted stage = .ok stages) :
    ∀ kv ∈ stages, kv.1 ≠ "align" := by
  intro kv hkv
  unfold selectStage at h
  split at h
  · cases hselect : selectEngine stage with
    | ok engine =>
        simp only [hselect, Except.map, Except.ok.injEq] at h
        rw [← h] at hkv
        rw [List.mem_singleton.mp hkv]
        exact hstage
    | error error =>
        simp [hselect, Except.map] at h
  · cases h
    cases hkv

theorem selection_align {selection : Selection}
    (htranscribe : selectEngine "transcribe" = .ok transcribe)
    (h : selectPipelineEngines selectEngine parameters = .ok selection) :
    ∃ align, selectAlign selectEngine parameters transcribe =
        .ok (align, selection.effectiveParameters) ∧
      (selection.stages.contains "align" = true ↔ ∃ kv ∈ align, kv.1 = "align") := by
  unfold selectPipelineEngines at h
  obtain ⟨prepare, _, h⟩ := bind_eq_ok h
  obtain ⟨selected, hselected, h⟩ := bind_eq_ok h
  rw [htranscribe, Except.ok.injEq] at hselected
  subst hselected
  obtain ⟨⟨align, effective⟩, halign, h⟩ := bind_eq_ok h
  obtain ⟨diarize, hdiarize, h⟩ := bind_eq_ok h
  obtain ⟨pii, hpii, h⟩ := bind_eq_ok h
  obtain ⟨redact, hredact, h⟩ := bind_eq_ok h
  have hdiarize := selectStage_ne_align (by decide) hdiarize
  have hpii := selectStage_ne_align (by decide) hpii
  have hredact := selectStage_ne_align (by decide) hredact
  cases h
  refine ⟨align, halign, ?_⟩
  rw [Dict.contains_iff]
  constructor
  · rintro ⟨kv, hkv, hkey⟩
    obtain ⟨entry, hentry, rfl⟩ := List.mem_map.mp hkv
    simp only [List.mem_append, List.mem_cons, List.not_mem_nil, or_false] at hentry
    rcases hentry with ((((rfl | rfl) | hentry) | hentry) | hentry) | hentry
    · have hne : "prepare" ≠ "align" := by decide
      exact absurd hkey hne
    · have hne : "transcribe" ≠ "align" := by decide
      exact absurd hkey hne
    · exact ⟨entry, hentry, hkey⟩
    · exact absurd hkey (hdiarize entry hentry)
    · exact absurd hkey (hpii entry hentry)
    · exact absurd hkey (hredact entry hentry)
  · rintro ⟨kv, hkv, hkey⟩
    refine ⟨(kv.1, kv.2.toStageSelection), List.mem_map.mpr ⟨kv, ?_, rfl⟩, hkey⟩
    simp only [List.mem_append]
    exact Or.inl (Or.inl (Or.inl (Or.inr hkv)))

end Selected

section Built

variable {uuid4 : Nat → Uuid} {engines models : Dict String}

theorem not_isAlignment_transcribe {task : Task} {channel : Nat}
    (h : task.stage = s!"transcribe_ch{channel}") : ¬ IsAlignment task := by
  intro halign
  have hname : toString "transcribe_ch" = "transcribe_ch" := rfl
  rw [IsAlignment, h] at halign
  simp [hname] at halign

theorem align_of_buildMonoDag {prepare : Task} (hprepare : ¬ IsAlignment prepare)
    {config diarize : Config} {align diarizes : Bool}
    (h : ∃ t ∈ buildMonoDag uuid4 prepare engines models config diarize align diarizes,
      IsAlignment t) : align = true := by
  obtain ⟨t, ht, halign⟩ := h
  simp only [buildMonoDag, List.mem_append, List.mem_cons, List.not_mem_nil, or_false] at ht
  rcases ht with ((rfl | rfl) | ht) | ht
  · exact absurd halign hprepare
  · exact absurd halign (by show ¬ "align".toList <+: "transcribe".toList; decide)
  · split at ht
    · assumption
    · cases ht
  · split at ht
    · rw [List.mem_singleton.mp ht] at halign
      exact absurd halign (by show ¬ "align".toList <+: "diarize".toList; decide)
    · cases ht

theorem align_of_buildPerChannelDag {prepare : Task} (hprepare : ¬ IsAlignment prepare)
    {config : Config} {align : Bool} {channels : Nat}
    (h : ∃ t ∈ buildPerChannelDagWithEngines uuid4 prepare engines models config align channels,
      IsAlignment t) : align = true := by
  obtain ⟨t, ht, halign⟩ := h
  rcases List.mem_cons.mp ht with rfl | ht
  · exact absurd halign hprepare
  · obtain ⟨channel, _, ht⟩ := List.mem_flatMap.mp ht
    unfold channelTasks at ht
    split at ht
    · assumption
    · rw [List.mem_singleton.mp ht] at halign
      exact absurd halign (not_isAlignment_transcribe rfl)

/-- Words are aligned only when an aligner is selected. -/
theorem align_of_buildTasks {audioUri : String} {speechRegions : Bool} {selection : Selection}
    {tasks : List Task} (h : buildTasks uuid4 audioUri speechRegions selection = .ok tasks)
    (halign : ∃ t ∈ tasks, IsAlignment t) : selection.stages.contains "align" = true := by
  obtain ⟨built, hbuilt, h⟩ := bind_eq_ok h
  cases h
  obtain ⟨t, ht, halign⟩ := halign
  obtain ⟨u, hu, rfl⟩ := List.mem_map.mp ht
  have hstage : ∀ engineIds, (markOnDemand engineIds u).stage = u.stage := by
    intro engineIds
    unfold markOnDemand
    split <;> rfl
  have halign : IsAlignment u := by
    unfold IsAlignment at halign ⊢
    rwa [hstage] at halign
  have hprepare : ∀ (id : Uuid) (config : Config) (uri : Option String), ¬ IsAlignment
      (pipelineTask (selection.stages.map fun kv => (kv.1, kv.2.engineId)) id "prepare" "prepare"
        [] [] config uri) := by
    intro id config uri
    show ¬ "align".toList <+: "prepare".toList
    decide
  unfold buildDagWithEngines at hbuilt
  obtain ⟨words, _, hbuilt⟩ := bind_eq_ok hbuilt
  obtain ⟨detection, _, hbuilt⟩ := bind_eq_ok hbuilt
  obtain ⟨diarize, _, hbuilt⟩ := bind_eq_ok hbuilt
  obtain ⟨config, _, hbuilt⟩ := bind_eq_ok hbuilt
  dsimp only at hbuilt
  split at hbuilt
  · obtain ⟨channels, _, hbuilt⟩ := bind_eq_ok hbuilt
    cases hbuilt
    have hwanted := align_of_buildPerChannelDag (hprepare _ _ _) ⟨u, hu, halign⟩
    simp only [Bool.not_not, Bool.and_eq_true] at hwanted
    exact hwanted.2
  · cases hbuilt
    have hwanted := align_of_buildMonoDag (hprepare _ _ _) ⟨u, hu, halign⟩
    simp only [Bool.not_not, Bool.and_eq_true] at hwanted
    exact hwanted.2

end Built

section Agreement

variable {selectEngine : String → Except SelectionError EngineSelectionResult}
  {parameters : Config} {transcribe : EngineSelectionResult} {selection : Selection}

/-- The selector, the builder and the assembly of a job act on one decision exactly when
the request is clear and an aligner is found wherever one is needed. -/
theorem wordRequestsAgree_iff (htranscribe : selectEngine "transcribe" = .ok transcribe)
    (h : selectPipelineEngines selectEngine parameters = .ok selection) :
    WordRequestsAgree parameters transcribe selection ↔
      ClearRequest parameters ∧ ¬ LacksAligner selectEngine parameters transcribe := by
  obtain ⟨align, halign, hcontains⟩ := selection_align htranscribe h
  have hcases := selectAlign_cases halign
  constructor
  · intro hagree
    have hlacks : ¬ LacksAligner selectEngine parameters transcribe := by
      intro hlacks
      have hwants : wantsWordTimestamps parameters = true ∧
          transcribe.supportsWordTimestamps = false := by
        simpa [shouldAddAlignment] using hlacks.1
      have hnone : align = [] := by
        rcases hcases with ⟨_, ⟨engine, hengine, _⟩, _⟩ | ⟨hadd, _⟩ | ⟨_, hnil, _⟩
        · exact absurd hengine (hlacks.2 engine)
        · rw [hlacks.1] at hadd
          cases hadd
        · exact hnil
      rcases hagree.required (hagree.assembly.trans hwants.1) with hnative | hstage
      · rw [hwants.2] at hnative
        cases hnative
      · obtain ⟨kv, hkv, _⟩ := hcontains.mp hstage
        rw [hnone] at hkv
        cases hkv
    have heffective : selection.effectiveParameters = parameters := by
      rcases hcases with ⟨_, _, heq⟩ | ⟨_, _, heq⟩ | ⟨habsurd, _⟩
      · exact heq
      · exact heq
      · exact absurd habsurd hlacks
    have hbuilder := hagree.builder
    rw [heffective] at hbuilder
    exact ⟨readers_agree_iff.mp ⟨hbuilder, hagree.assembly⟩, hlacks⟩
  · rintro ⟨hclear, hlacks⟩
    obtain ⟨hbuilder, hassembly⟩ := readers_agree_iff.mpr hclear
    have heffective : selection.effectiveParameters = parameters := by
      rcases hcases with ⟨_, _, heq⟩ | ⟨_, _, heq⟩ | ⟨habsurd, _⟩
      · exact heq
      · exact heq
      · exact absurd habsurd hlacks
    have hstage : selection.stages.contains "align" = true ↔
        shouldAddAlignment parameters transcribe = true := by
      rw [hcontains]
      rcases hcases with ⟨hadd, ⟨engine, _, hentry⟩, _⟩ | ⟨hadd, hnil, _⟩ | ⟨habsurd, _⟩
      · simp [hadd, hentry]
      · simp [hadd, hnil]
      · exact absurd habsurd hlacks
    constructor
    · rw [heffective]
      exact hbuilder
    · exact hassembly
    · intro uuid4 audioUri speechRegions tasks hbuilt haligned
      have hadd := hstage.mp (align_of_buildTasks hbuilt haligned)
      simp only [shouldAddAlignment, Bool.and_eq_true] at hadd
      exact hassembly.trans hadd.1
    · intro hrequested
      cases hnative : transcribe.supportsWordTimestamps with
      | true => exact Or.inl rfl
      | false =>
          right
          rw [hstage]
          simp [shouldAddAlignment, hnative, ← hassembly, hrequested]

end Agreement

/-- A stage engine that transcribes without word timestamps. -/
def segmentEngine (stage : String) : EngineSelectionResult where
  engineId := stage
  loadedModelId := none
  onDemand := false
  supportsWordTimestamps := false
  includesDiarization := false

/-- The stages of a pipeline that aligns words. -/
def alignedStages : Dict StageSelection :=
  ["prepare", "transcribe", "align"].map fun stage =>
    (stage, (segmentEngine stage).toStageSelection)

theorem selectPipelineEngines_nil :
    selectPipelineEngines (fun stage => .ok (segmentEngine stage)) [] =
      .ok ⟨alignedStages, []⟩ := rfl

theorem wordRequestsAgree_iff_default :
    WordRequestsAgree [] (segmentEngine "transcribe") ⟨alignedStages, []⟩ ↔
      ClearRequest [] ∧ ¬ LacksAligner (fun stage => .ok (segmentEngine stage)) []
        (segmentEngine "transcribe") :=
  wordRequestsAgree_iff rfl selectPipelineEngines_nil

def unknownGranularity : Config := [("timestamps_granularity", .str "words")]

def contradictoryRequest : Config :=
  [("word_timestamps", .bool true), ("timestamps_granularity", .str "segment")]

/-- An unknown granularity asks for words in the builder alone; a contradictory request
aligns words that the assembly is told nobody requested. -/
theorem wordRequests_disagree :
    (∃ selection, selectPipelineEngines (fun stage => .ok (segmentEngine stage))
        unknownGranularity = .ok selection ∧
      wantsWordTimestamps unknownGranularity = false ∧
      wordTimestamps selection.effectiveParameters = .ok true ∧
      ¬ WordRequestsAgree unknownGranularity (segmentEngine "transcribe") selection) ∧
    ∃ selection tasks, selectPipelineEngines (fun stage => .ok (segmentEngine stage))
        contradictoryRequest = .ok selection ∧
      buildTasks id "s3://artifacts/audio.wav" false selection = .ok tasks ∧
      (∃ t ∈ tasks, IsAlignment t) ∧
      ¬ WordRequestsAgree contradictoryRequest (segmentEngine "transcribe") selection := by
  constructor
  · refine ⟨_, rfl, by decide, rfl, ?_⟩
    intro hagree
    have hbuilder := Except.ok.inj hagree.builder
    exact absurd hbuilder (by decide)
  · refine ⟨⟨alignedStages, contradictoryRequest⟩, _, rfl, rfl, by decide, ?_⟩
    intro hagree
    exact absurd hagree.assembly (by decide)

end Dalston.Orchestrator
