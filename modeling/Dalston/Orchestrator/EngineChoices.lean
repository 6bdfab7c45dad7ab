import Dalston.Orchestrator.EngineSelector

/-!
# What an engine selection promises

An explicit choice of a job is never replaced. A model that the job names is
ready, of its stage, and admits the requested language. Without a choice, the
engine is a live batch engine of the stage that meets the requirements, with a
fitting model when the stage is model-backed; only when there is no such engine
is one taken from the catalog, and no model is named then. A selection fails
when there is nothing to choose from.
-/

namespace Dalston.Orchestrator.EngineSelector

open Foundation Model Registry

section Promises

variable (env : SelectionEnv) (stage : String) (requirements : Requirements)

/-- A live batch engine of the stage that meets the requirements, as far as its capabilities are
known. -/
structure Serves (engine : EngineRecord) : Prop where
  registered : engine ∈ env.registry.records
  stage : engine.stage = stage
  batch : engine.supportsInterface "batch" = true
  healthy : engine.isHealthy env.now = true
  meets : ∀ caps ∈ engine.capabilities, meetsRequirements caps requirements = true

/-- An engine of the stage that may be started on demand. -/
structure Deployable (entry : CatalogEntry) : Prop where
  listed : entry ∈ env.catalog.rows
  onDemand : entry.onDemand = true
  stage : stage ∈ entry.capabilities.stages
  meets : meetsRequirements entry.capabilities requirements = true

/-- A model of the engine that is ready for the stage and admits the requested language. -/
structure Fits (engineId : String) (model : ModelRow) : Prop where
  listed : model ∈ env.models.rows
  engine : model.engineId = engineId
  ready : model.status = .ready
  stage : model.stage = stage
  languages : ∀ language ∈ requirements.language, admits env model.languages language = true

/-- An instance of the engine. -/
def Instance (engineId : String) (engine : EngineRecord) : Prop :=
  engine ∈ env.registry.records ∧ engine.engineId = engineId

/-- The catalog marks the engine as one to be started on demand. -/
def MarkedOnDemand (engineId : String) : Prop :=
  ∃ entry ∈ env.catalog.rows, entry.engineId = engineId ∧ entry.onDemand = true

/-- No instance of the engine can accept work. -/
def NoneAvailable (engineId : String) : Prop :=
  ∀ engine, Instance env engineId engine → engine.isAvailable env.now = false

/-- What a choice may be, for what the job names. -/
inductive Sound (choice : EngineChoice) : Option String → Prop
  | model {model : ModelRow} (fits : Fits env stage requirements choice.engineId model)
      (loaded : choice.loadedModelId = some (resolveLoadedModelId model stage))
      (runs : (∃ engine, Instance env choice.engineId engine ∧ engine.isHealthy env.now = true) ∨
        MarkedOnDemand env choice.engineId) : Sound choice (some model.id)
  | engine {engine : EngineRecord} (unknown : env.models.find? choice.engineId = none)
      (runs : Instance env choice.engineId engine) (healthy : engine.isHealthy env.now = true)
      (meets : ∀ caps ∈ engine.capabilities, meetsRequirements caps requirements = true)
      (loaded : choice.loadedModelId = none) : Sound choice (some choice.engineId)
  | namedOnDemand {entry : CatalogEntry} (unknown : env.models.find? choice.engineId = none)
      (unavailable : NoneAvailable env choice.engineId)
      (deployable : Deployable env stage requirements entry)
      (engine : entry.engineId = choice.engineId) (loaded : choice.loadedModelId = none) :
      Sound choice (some choice.engineId)
  | automatic {engine : EngineRecord} (serves : Serves env stage requirements engine)
      (chosen : choice.engineId = engine.engineId)
      (loaded : if stage ∈ MODEL_BACKED_STAGES then
          ∃ model, Fits env stage requirements choice.engineId model ∧
            choice.loadedModelId = some (resolveLoadedModelId model stage)
        else choice.loadedModelId = none) : Sound choice none
  | onDemand {entry : CatalogEntry} (unserved : ∀ engine, ¬ Serves env stage requirements engine)
      (deployable : Deployable env stage requirements entry)
      (engine : entry.engineId = choice.engineId) (loaded : choice.loadedModelId = none) :
      Sound choice none

/-- Why nothing can be chosen, for what the job names. -/
inductive Missing : Option String → Prop
  | modelRefused {model : ModelRow} (listed : model ∈ env.models.rows)
      (refused : ∀ engineId, ¬ Fits env stage requirements engineId model) :
      Missing (some model.id)
  | modelEngine {model : ModelRow} (listed : model ∈ env.models.rows)
      (unavailable : NoneAvailable env model.engineId)
      (down : ¬ ((∃ engine, Instance env model.engineId engine) ∧
        ∀ engine, Instance env model.engineId engine → engine.isHealthy env.now = true))
      (fixed : ¬ MarkedOnDemand env model.engineId) : Missing (some model.id)
  | unknownModel {id : String} (needed : stage = "align" ∨ stage = "pii_detect")
      (unknown : env.models.find? id = none) : Missing (some id)
  | engineDown {id : String} (unknown : env.models.find? id = none)
      (unavailable : NoneAvailable env id)
      (fixed : ∀ entry, Deployable env stage requirements entry → entry.engineId ≠ id) :
      Missing (some id)
  | engineIncapable {id : String} {engine : EngineRecord} {caps : EngineCapabilities}
      (unknown : env.models.find? id = none) (runs : Instance env id engine)
      (known : engine.capabilities = some caps)
      (lacks : meetsRequirements caps requirements = false) : Missing (some id)
  | noEngine (unserved : ∀ engine, ¬ Serves env stage requirements engine)
      (fixed : ∀ entry, ¬ Deployable env stage requirements entry) : Missing none
  | noModel {engine : EngineRecord} (serves : Serves env stage requirements engine)
      (backed : stage ∈ MODEL_BACKED_STAGES)
      (unfitted : ∀ engine, Serves env stage requirements engine →
        ∀ model, ¬ Fits env stage requirements engine.engineId model) : Missing none

end Promises

section Parts

variable {env : SelectionEnv} {stage : String} {requirements : Requirements}

/-- Requirements whose language is one to look for. -/
def Explicit (env : SelectionEnv) (requirements : Requirements) : Prop :=
  requirements.explicitLanguage env = requirements.language

theorem Explicit.nonempty (h : Explicit env requirements) :
    EngineRecord.nonempty requirements.language = requirements.language := by
  cases hlanguage : requirements.language with
  | none => rfl
  | some language =>
      by_cases hempty : language = ""
      · subst hempty
        simp [Explicit, Requirements.explicitLanguage, hlanguage, EngineRecord.nonempty] at h
      · simp [EngineRecord.nonempty, hempty]

@[simp] theorem mem_bestFirst {A P : Type} [LinearOrder P] {score : A → P} {items : List A} {a : A} :
    a ∈ bestFirst score items ↔ a ∈ items := List.mem_insertionSort _

theorem mem_batchEngines {engine : EngineRecord} :
    engine ∈ batchEngines env stage ↔
      engine ∈ env.registry.records ∧ engine.stage = stage ∧
        engine.supportsInterface "batch" = true := by
  simp [batchEngines, env.registry.mem_getByStage, and_assoc]

theorem mem_capable {engine : EngineRecord} :
    engine ∈ (batchEngines env stage).filter (capable env requirements) ↔
      Serves env stage requirements engine := by
  simp only [List.mem_filter, mem_batchEngines, capable, Bool.and_eq_true, Option.all_eq_true]
  constructor
  · rintro ⟨⟨hregistered, hstage, hbatch⟩, hhealthy, hmeets⟩
    exact ⟨hregistered, hstage, hbatch, hhealthy, hmeets⟩
  · rintro ⟨hregistered, hstage, hbatch, hhealthy, hmeets⟩
    exact ⟨⟨hregistered, hstage, hbatch⟩, hhealthy, hmeets⟩

theorem mem_findEngines {entry : CatalogEntry} :
    entry ∈ (findEngines env.catalog stage requirements).filter (·.onDemand) ↔
      Deployable env stage requirements entry := by
  simp only [findEngines, List.mem_filter, Bool.and_eq_true, decide_eq_true_eq]
  constructor
  · rintro ⟨⟨hlisted, hstage, hmeets⟩, hdemand⟩
    exact ⟨hlisted, hdemand, hstage, hmeets⟩
  · rintro ⟨hlisted, hdemand, hstage, hmeets⟩
    exact ⟨⟨hlisted, hstage, hmeets⟩, hdemand⟩

theorem catalogOnDemandFallback_none {engineId : Option String} :
    catalogOnDemandFallback (findEngines env.catalog stage requirements) engineId = none ↔
      ∀ entry, Deployable env stage requirements entry → ∃ id ∈ engineId, entry.engineId ≠ id := by
  simp only [catalogOnDemandFallback, Option.map_eq_none_iff, List.argmin_eq_none,
    List.filter_eq_nil_iff]
  constructor
  · intro h entry hentry
    have hmem := mem_findEngines.mpr hentry
    have hnot := h entry (List.mem_of_mem_filter hmem)
    cases engineId with
    | none => simp [hentry.onDemand] at hnot
    | some id => exact ⟨id, rfl, by simpa [hentry.onDemand] using hnot⟩
  · intro h entry hentry hchosen
    simp only [Bool.and_eq_true, Option.all_eq_true, decide_eq_true_eq] at hchosen
    have hmem : entry ∈ (findEngines env.catalog stage requirements).filter (·.onDemand) :=
      List.mem_filter.mpr ⟨hentry, hchosen.1⟩
    obtain ⟨id, hid, hne⟩ := h entry (mem_findEngines.mp hmem)
    exact hne (hchosen.2 id hid)

theorem catalogOnDemandFallback_some {engineId : Option String} {choice : EngineChoice}
    (h : catalogOnDemandFallback (findEngines env.catalog stage requirements) engineId =
      some choice) :
    ∃ entry, Deployable env stage requirements entry ∧ entry.engineId = choice.engineId ∧
      choice.loadedModelId = none ∧ ∀ id ∈ engineId, choice.engineId = id := by
  simp only [catalogOnDemandFallback, Option.map_eq_some_iff] at h
  obtain ⟨entry, hentry, rfl⟩ := h
  obtain ⟨hmem, hchosen⟩ := List.mem_filter.mp (List.argmin_mem hentry)
  simp only [Bool.and_eq_true, Option.all_eq_true, decide_eq_true_eq] at hchosen
  have hdeployable := mem_findEngines.mp (List.mem_filter.mpr ⟨hmem, hchosen.1⟩)
  exact ⟨entry, hdeployable, rfl, rfl, hchosen.2⟩

theorem getEngine_eq_none {engineId : String} :
    env.registry.getEngine env.now engineId = none ↔ ∀ engine, ¬ Instance env engineId engine := by
  have hmem := env.registry.mem_getByEngineId engineId
  simp only [EngineRegistry.getEngine, Instance, ← hmem]
  cases env.registry.getByEngineId engineId with
  | nil => simp
  | cons first rest => exact iff_of_false (by simp) fun h => h first List.mem_cons_self

theorem instance_of_getEngine {engineId : String} {engine : EngineRecord}
    (h : env.registry.getEngine env.now engineId = some engine) : Instance env engineId engine := by
  have hmem := env.registry.mem_getByEngineId engineId
  simp only [EngineRegistry.getEngine] at h
  cases hlist : env.registry.getByEngineId engineId with
  | nil => simp [hlist] at h
  | cons first rest =>
      rw [hlist] at h hmem
      obtain rfl := Option.some.inj h
      refine (hmem _).mp ?_
      cases hfind : (first :: rest).find? (·.isAvailable env.now) with
      | none => exact List.mem_cons_self
      | some found => exact List.mem_of_find?_eq_some hfind

/-- An available instance is found when there is one. -/
theorem noneAvailable_of_getEngine {engineId : String}
    (h : ∀ engine, env.registry.getEngine env.now engineId = some engine →
      engine.isAvailable env.now = false) : NoneAvailable env engineId := by
  intro engine hengine
  have hmem := (env.registry.mem_getByEngineId engineId engine).mpr hengine
  simp only [EngineRegistry.getEngine] at h
  cases hlist : env.registry.getByEngineId engineId with
  | nil => simp [hlist] at hmem
  | cons first rest =>
      rw [hlist] at h hmem
      cases hfind : (first :: rest).find? (·.isAvailable env.now) with
      | none => simpa using List.find?_eq_none.mp hfind engine hmem
      | some found =>
          have hfound := List.find?_some hfind
          rw [h found (by simp [hfind])] at hfound
          cases hfound

/-- The models that are ranked are those that fit. -/
theorem findBestDownloadedModel_eq (h : Explicit env requirements) (engineId : String) :
    ∃ fitting : List ModelRow,
      findBestDownloadedModel env stage requirements engineId =
        (bestFirst (modelScore env requirements) fitting).head? ∧
      ∀ model, model ∈ fitting ↔ Fits env stage requirements engineId model := by
  let downloaded := env.models.rows.filter fun model : ModelRow =>
    model.engineId = engineId && model.status = .ready && model.stage = stage
  have hdownloaded : ∀ model, model ∈ downloaded ↔ model ∈ env.models.rows ∧
      model.engineId = engineId ∧ model.status = .ready ∧ model.stage = stage := by
    simp [downloaded, and_assoc]
  cases hlanguage : requirements.language with
  | none =>
      have hexplicit : requirements.explicitLanguage env = none := h.trans hlanguage
      refine ⟨downloaded, by simp [findBestDownloadedModel, hexplicit, downloaded], fun model => ?_⟩
      rw [hdownloaded]
      constructor
      · rintro ⟨hlisted, hengine, hready, hstage⟩
        exact ⟨hlisted, hengine, hready, hstage, by simp [hlanguage]⟩
      · rintro ⟨hlisted, hengine, hready, hstage, _⟩
        exact ⟨hlisted, hengine, hready, hstage⟩
  | some language =>
      have hexplicit : requirements.explicitLanguage env = some language := h.trans hlanguage
      refine ⟨downloaded.filter fun model => admits env model.languages language,
        by simp [findBestDownloadedModel, hexplicit, downloaded], fun model => ?_⟩
      rw [List.mem_filter, hdownloaded]
      constructor
      · rintro ⟨⟨hlisted, hengine, hready, hstage⟩, hadmits⟩
        exact ⟨hlisted, hengine, hready, hstage, by simpa [hlanguage] using hadmits⟩
      · rintro ⟨hlisted, hengine, hready, hstage, hadmits⟩
        exact ⟨⟨hlisted, hengine, hready, hstage⟩, hadmits language (by simp [hlanguage])⟩

theorem fits_of_findBest (h : Explicit env requirements) {engineId : String} {model : ModelRow}
    (hfound : findBestDownloadedModel env stage requirements engineId = some model) :
    Fits env stage requirements engineId model := by
  obtain ⟨fitting, heq, hfitting⟩ := findBestDownloadedModel_eq h engineId
  rw [heq] at hfound
  exact (hfitting model).mp (mem_bestFirst.mp (List.mem_of_mem_head? hfound))

theorem not_fits_of_findBest (h : Explicit env requirements) {engineId : String}
    (hnone : findBestDownloadedModel env stage requirements engineId = none) (model : ModelRow) :
    ¬ Fits env stage requirements engineId model := by
  intro hfits
  obtain ⟨fitting, heq, hfitting⟩ := findBestDownloadedModel_eq h engineId
  rw [heq, List.head?_eq_none_iff] at hnone
  have hmem : model ∈ bestFirst (modelScore env requirements) fitting :=
    mem_bestFirst.mpr ((hfitting model).mpr hfits)
  rw [hnone] at hmem
  cases hmem

end Parts

section Paths

variable {env : SelectionEnv} {stage : String} {requirements : Requirements}

theorem languages_iff (h : Explicit env requirements) (model : ModelRow) :
    (EngineRecord.nonempty requirements.language).all (admits env model.languages) = true ↔
      ∀ language ∈ requirements.language, admits env model.languages language = true := by
  rw [h.nonempty, Option.all_eq_true]
  rfl

/-- What the choice of a named model ends in. -/
theorem selectModel_cases (h : Explicit env requirements) {model : ModelRow}
    (hlisted : model ∈ env.models.rows) :
    (∃ choice, selectModel env stage requirements model = .ok choice ∧
      Sound env stage requirements choice (some model.id)) ∨
    ∃ failure, selectModel env stage requirements model = .error failure ∧
      Missing env stage requirements (some model.id) := by
  have hrefused : ∀ {P : Prop}, (∀ engineId, Fits env stage requirements engineId model → P) →
      ¬ P → Missing env stage requirements (some model.id) :=
    fun hP hnot => .modelRefused hlisted fun engineId hfits => hnot (hP engineId hfits)
  simp only [selectModel]
  split
  · rename_i hstage
    exact Or.inr ⟨_, rfl, hrefused (fun _ hfits => hfits.stage) hstage⟩
  rename_i hstage
  split
  · rename_i hready
    exact Or.inr ⟨_, rfl, hrefused (fun _ hfits => hfits.ready) hready⟩
  rename_i hready
  have hchoice : ∀ engine capabilities onDemand,
      ((∃ engine, Instance env model.engineId engine ∧ engine.isHealthy env.now = true) ∨
        MarkedOnDemand env model.engineId) →
      (∃ choice, modelChoice env stage requirements model engine capabilities onDemand = .ok choice ∧
        Sound env stage requirements choice (some model.id)) ∨
      ∃ failure, modelChoice env stage requirements model engine capabilities onDemand =
          .error failure ∧ Missing env stage requirements (some model.id) := by
    intro engine capabilities onDemand hruns
    simp only [modelChoice]
    split
    · rename_i hadmits
      have hfits : Fits env stage requirements model.engineId model :=
        ⟨hlisted, rfl, not_not.mp hready, not_not.mp hstage, (languages_iff h model).mp hadmits⟩
      exact Or.inl ⟨_, rfl, .model hfits rfl hruns⟩
    · rename_i hadmits
      have hnot := mt (languages_iff h model).mpr hadmits
      exact Or.inr ⟨_, rfl, hrefused (fun _ hfits => hfits.languages) hnot⟩
  split
  · rename_i live hlive
    obtain ⟨hengine, hhealthy⟩ := Option.filter_eq_some_iff.mp hlive
    exact hchoice _ _ _ (Or.inl ⟨live, instance_of_getEngine hengine, hhealthy⟩)
  rename_i hdown
  split
  · rename_i entry hentry
    obtain ⟨hfind, hdemand⟩ := Option.filter_eq_some_iff.mp hentry
    obtain ⟨hmem, hid⟩ := Table.find?_eq_some_iff.mp hfind
    exact hchoice _ _ _ (Or.inr ⟨entry, hmem, hid, hdemand⟩)
  rename_i hfixed
  have hunhealthy : ∀ engine, env.registry.getEngine env.now model.engineId = some engine →
      engine.isHealthy env.now = false := by
    intro engine hengine
    simpa [hengine] using hdown
  refine Or.inr ⟨_, rfl, .modelEngine hlisted ?_ ?_ ?_⟩
  · refine noneAvailable_of_getEngine fun engine hengine => ?_
    have hheartbeat := env.registry.heartbeat engine (instance_of_getEngine hengine).1
    by_contra havailable
    have hhealthy := EngineRecord.isHealthy_of_isAvailable hheartbeat (by simpa using havailable)
    simp [hunhealthy engine hengine] at hhealthy
  · rintro ⟨⟨engine, hengine⟩, hall⟩
    cases hget : env.registry.getEngine env.now model.engineId with
    | none => exact getEngine_eq_none.mp hget engine hengine
    | some found =>
        have hhealthy := hall found (instance_of_getEngine hget)
        simp [hunhealthy found hget] at hhealthy
  · rintro ⟨entry, hmem, hid, hdemand⟩
    have hfind : env.catalog.find? model.engineId = some entry :=
      Table.find?_eq_some_iff.mpr ⟨hmem, hid⟩
    simp [hfind, hdemand] at hfixed

/-- What the choice of a named engine ends in. -/
theorem selectNamedEngine_cases {engineId : String} (hunknown : env.models.find? engineId = none) :
    (∃ choice, selectNamedEngine env stage requirements engineId = .ok choice ∧
      Sound env stage requirements choice (some engineId)) ∨
    ∃ failure, selectNamedEngine env stage requirements engineId = .error failure ∧
      Missing env stage requirements (some engineId) := by
  simp only [selectNamedEngine]
  split
  · rename_i hdown
    have hunavailable : NoneAvailable env engineId :=
      noneAvailable_of_getEngine fun engine hengine => by simpa [hengine] using hdown
    split
    · rename_i choice hchoice
      obtain ⟨entry, hdeployable, hid, hloaded, hnamed⟩ := catalogOnDemandFallback_some hchoice
      obtain rfl := hnamed engineId rfl
      exact Or.inl ⟨choice, rfl, .namedOnDemand hunknown hunavailable hdeployable hid hloaded⟩
    · rename_i hnone
      refine Or.inr ⟨_, rfl, .engineDown hunknown hunavailable fun entry hentry => ?_⟩
      obtain ⟨id, hid, hne⟩ := catalogOnDemandFallback_none.mp hnone entry hentry
      rwa [Option.some.inj hid]
  · rename_i engine hengine
    obtain ⟨hget, havailable⟩ := Option.filter_eq_some_iff.mp hengine
    obtain ⟨hregistered, rfl⟩ := instance_of_getEngine hget
    have hheartbeat := env.registry.heartbeat engine hregistered
    have hhealthy := EngineRecord.isHealthy_of_isAvailable hheartbeat havailable
    split
    · rename_i hmeets
      exact Or.inl ⟨_, rfl, .engine hunknown ⟨hregistered, rfl⟩ hhealthy
        ((Option.all_eq_true _ _).mp hmeets) rfl⟩
    · rename_i hlacks
      cases hcaps : engine.capabilities with
      | none => simp [hcaps] at hlacks
      | some caps =>
          exact Or.inr ⟨_, rfl, .engineIncapable hunknown ⟨hregistered, rfl⟩ hcaps
            (by simpa [hcaps] using hlacks)⟩

/-- What the ranked engines that serve the stage end in. -/
theorem selectRanked_cases (h : Explicit env requirements) {ranked : List EngineRecord}
    {first : EngineRecord} {reason : String} (hfirst : first ∈ ranked)
    (hranked : ∀ engine, engine ∈ ranked ↔ Serves env stage requirements engine) :
    (∃ choice, selectRanked env stage requirements ranked first reason = .ok choice ∧
      Sound env stage requirements choice none) ∨
    ∃ failure, selectRanked env stage requirements ranked first reason = .error failure ∧
      Missing env stage requirements none := by
  simp only [selectRanked]
  split
  swap
  · rename_i hbacked
    exact Or.inl ⟨_, rfl, .automatic ((hranked first).mp hfirst) rfl (by simp [hbacked])⟩
  rename_i hbacked
  split
  · rename_i hnone
    refine Or.inr ⟨_, rfl, .noModel ((hranked first).mp hfirst) hbacked fun engine hserves => ?_⟩
    obtain ⟨idx, hidx⟩ := List.mem_iff_getElem?.mp ((hranked engine).mpr hserves)
    have hmem := List.mk_mem_zipIdx_iff_getElem?.mpr hidx
    have hfind := List.findSome?_eq_none_iff.mp hnone _ hmem
    exact not_fits_of_findBest h (by simpa using hfind)
  · rename_i engine idx model hfound
    obtain ⟨candidate, hcandidate, hmodel⟩ := List.exists_of_findSome?_eq_some hfound
    obtain ⟨model', hfind, heq⟩ := Option.map_eq_some_iff.mp hmodel
    obtain ⟨rfl, rfl⟩ := Prod.mk.inj heq
    have hserves := (hranked engine).mp (List.fst_mem_of_mem_zipIdx hcandidate)
    refine Or.inl ⟨_, rfl, .automatic hserves rfl ?_⟩
    rw [if_pos hbacked]
    exact ⟨model', fits_of_findBest h hfind, rfl⟩

/-- What a selection ends in when the job names nothing and these engines serve the stage. -/
theorem selectCapable_cases (h : Explicit env requirements) (candidates : List EngineRecord)
    {serving : List EngineRecord}
    (hserving : ∀ engine, engine ∈ serving ↔ Serves env stage requirements engine) :
    (∃ choice, selectCapable env stage requirements candidates serving = .ok choice ∧
      Sound env stage requirements choice none) ∨
    ∃ failure, selectCapable env stage requirements candidates serving = .error failure ∧
      Missing env stage requirements none := by
  rcases serving with _ | ⟨engine, _ | ⟨other, others⟩⟩
  · have hunserved : ∀ engine, ¬ Serves env stage requirements engine :=
      fun engine hserves => List.not_mem_nil ((hserving engine).mpr hserves)
    simp only [selectCapable]
    split
    · rename_i choice hchoice
      obtain ⟨entry, hdeployable, hid, hloaded, _⟩ := catalogOnDemandFallback_some hchoice
      exact Or.inl ⟨choice, rfl, .onDemand hunserved hdeployable hid hloaded⟩
    · rename_i hnone
      refine Or.inr ⟨_, rfl, .noEngine hunserved fun entry hentry => ?_⟩
      obtain ⟨_, hid, _⟩ := catalogOnDemandFallback_none.mp hnone entry hentry
      cases hid
  · exact selectRanked_cases h List.mem_cons_self hserving
  · have hranked : ∀ candidate, candidate ∈ bestFirst engineScore (engine :: other :: others) ↔
        Serves env stage requirements candidate :=
      fun candidate => mem_bestFirst.trans (hserving candidate)
    refine selectRanked_cases h ?_ hranked
    cases hsorted : bestFirst engineScore (engine :: other :: others) with
    | nil =>
        have hmem := (hranked engine).mpr ((hserving engine).mp List.mem_cons_self)
        rw [hsorted] at hmem
        cases hmem
    | cons best rest => exact List.mem_cons_self

/-- Every selection ends in a sound choice or for want of one. -/
theorem selectEngine_cases (h : Explicit env requirements) (preference : Option String)
    {isModel : Bool} (hmodel : isModel = true → stage = "align" ∨ stage = "pii_detect") :
    (∃ choice, selectEngine env stage requirements preference isModel = .ok choice ∧
      Sound env stage requirements choice preference) ∨
    ∃ failure, selectEngine env stage requirements preference isModel = .error failure ∧
      Missing env stage requirements preference := by
  cases preference with
  | none => exact selectCapable_cases h _ fun engine => mem_capable
  | some preference =>
      simp only [selectEngine]
      cases hfind : env.models.find? preference with
      | some model =>
          obtain ⟨hlisted, rfl⟩ := Table.find?_eq_some_iff.mp hfind
          exact selectModel_cases h hlisted
      | none =>
          cases isModel with
          | true => exact Or.inr ⟨_, rfl, .unknownModel (hmodel rfl) hfind⟩
          | false => exact selectNamedEngine_cases hfind

end Paths

section Pipelines

variable {selectEngine : String → Except SelectionError EngineSelectionResult}
  {parameters effective : Config} {transcribe : EngineSelectionResult}

/-- The stages that a pipeline must select an engine for. -/
inductive Required (selectEngine : String → Except SelectionError EngineSelectionResult)
    (parameters : Config) : String → Prop
  | prepare : Required selectEngine parameters "prepare"
  | transcribe : Required selectEngine parameters "transcribe"
  | align {transcribe : EngineSelectionResult} (selected : selectEngine "transcribe" = .ok transcribe)
      (wanted : shouldAddAlignment parameters transcribe = true) :
      Required selectEngine parameters "align"
  | diarize {transcribe : EngineSelectionResult}
      (selected : selectEngine "transcribe" = .ok transcribe)
      (wanted : shouldAddDiarization parameters transcribe = true) :
      Required selectEngine parameters "diarize"
  | piiDetect (wanted : flag parameters "pii_detection" = true) :
      Required selectEngine parameters "pii_detect"
  | audioRedact (wanted : flag parameters "pii_detection" = true)
      (redact : flag parameters "redact_pii_audio" = true) :
      Required selectEngine parameters "audio_redact"

theorem bind_eq_error {E A B : Type} {x : Except E A} {f : A → Except E B} {e : E}
    (h : x >>= f = .error e) : x = .error e ∨ ∃ a, x = .ok a ∧ f a = .error e := by
  cases x with
  | error e' => exact Or.inl (congrArg Except.error (Except.error.inj h))
  | ok a => exact Or.inr ⟨a, rfl, h⟩

theorem selectStage_mem {wanted : Bool} {stage : String} {stages : Dict EngineSelectionResult}
    (h : selectStage selectEngine wanted stage = .ok stages) :
    ∀ kv ∈ stages, selectEngine kv.1 = .ok kv.2 := by
  intro kv hkv
  unfold selectStage at h
  split at h
  · cases hselect : selectEngine stage with
    | ok selected =>
        simp only [hselect, Except.map, Except.ok.injEq] at h
        rw [← h] at hkv
        rw [List.mem_singleton.mp hkv]
        exact hselect
    | error error => simp [hselect, Except.map] at h
  · cases h
    cases hkv

theorem selectStage_error {wanted : Bool} {stage : String} {error : SelectionError}
    (h : selectStage selectEngine wanted stage = .error error) :
    wanted = true ∧ selectEngine stage = .error error := by
  unfold selectStage at h
  split at h
  · rename_i hwanted
    refine ⟨hwanted, ?_⟩
    cases hselect : selectEngine stage with
    | ok selected => simp [hselect, Except.map] at h
    | error error' => simpa [hselect, Except.map] using h
  · cases h

/-- The fall back to segment timestamps leaves the other parameters alone. -/
theorem get?_effective {stages : Dict EngineSelectionResult}
    (h : selectAlign selectEngine parameters transcribe = .ok (stages, effective)) (key : String)
    (hwords : key ≠ "word_timestamps") (hgranularity : key ≠ "timestamps_granularity") :
    effective.get? key = parameters.get? key := by
  rcases selectAlign_cases h with ⟨_, _, rfl⟩ | ⟨_, _, rfl⟩ | ⟨_, _, rfl⟩
  · rfl
  · rfl
  · rw [segmentTimestamps, Dict.get?_set_ne _ _ hgranularity.symm, Dict.get?_set_ne _ _ hwords.symm]

theorem selectAlign_error {error : SelectionError}
    (h : selectAlign selectEngine parameters transcribe = .error error) :
    shouldAddAlignment parameters transcribe = true ∧ selectEngine "align" = .error error := by
  unfold selectAlign at h
  split at h
  · rename_i hwanted
    refine ⟨hwanted, ?_⟩
    cases hselect : selectEngine "align" with
    | ok selected => simp [hselect] at h
    | error error' =>
        rw [hselect] at h
        cases error' with
        | modelSelection => exact congrArg Except.error (Except.error.inj h)
        | noDownloadedModel | noCapableEngine =>
            simp only at h
            split at h
            · exact congrArg Except.error (Except.error.inj h)
            · cases h
  · cases h

/-- What a pipeline selects is what was selected for its stages. -/
theorem selectPipelineEngines_ok {selection : Selection}
    (h : selectPipelineEngines selectEngine parameters = .ok selection) :
    ∀ kv ∈ selection.stages, ∃ selected, selectEngine kv.1 = .ok selected ∧
      kv.2 = selected.toStageSelection := by
  unfold selectPipelineEngines at h
  obtain ⟨prepare, hprepare, h⟩ := bind_eq_ok h
  obtain ⟨transcribe, htranscribe, h⟩ := bind_eq_ok h
  obtain ⟨⟨align, effective⟩, halign, h⟩ := bind_eq_ok h
  obtain ⟨diarize, hdiarize, h⟩ := bind_eq_ok h
  obtain ⟨pii, hpii, h⟩ := bind_eq_ok h
  obtain ⟨redact, hredact, h⟩ := bind_eq_ok h
  have haligned : ∀ kv ∈ align, selectEngine kv.1 = .ok kv.2 := by
    rcases selectAlign_cases halign with ⟨_, ⟨engine, hengine, rfl⟩, _⟩ | ⟨_, rfl, _⟩ | ⟨_, rfl, _⟩
    · intro kv hkv
      rw [List.mem_singleton.mp hkv]
      exact hengine
    · exact fun _ hkv => nomatch hkv
    · exact fun _ hkv => nomatch hkv
  cases h
  intro kv hkv
  obtain ⟨entry, hentry, rfl⟩ := List.mem_map.mp hkv
  refine ⟨entry.2, ?_, rfl⟩
  simp only [List.mem_append, List.mem_cons, List.not_mem_nil, or_false] at hentry
  rcases hentry with ((((rfl | rfl) | hentry) | hentry) | hentry) | hentry
  · exact hprepare
  · exact htranscribe
  · exact haligned entry hentry
  · exact selectStage_mem hdiarize entry hentry
  · exact selectStage_mem hpii entry hentry
  · exact selectStage_mem hredact entry hentry

/-- A pipeline fails with the failure of a stage that it needs. -/
theorem selectPipelineEngines_error {error : SelectionError}
    (h : selectPipelineEngines selectEngine parameters = .error error) :
    ∃ stage, Required selectEngine parameters stage ∧ selectEngine stage = .error error := by
  unfold selectPipelineEngines at h
  rcases bind_eq_error h with hprepare | ⟨prepare, _, h⟩
  · exact ⟨_, .prepare, hprepare⟩
  rcases bind_eq_error h with htranscribe | ⟨transcribe, htranscribe, h⟩
  · exact ⟨_, .transcribe, htranscribe⟩
  rcases bind_eq_error h with halign | ⟨⟨align, effective⟩, halign, h⟩
  · obtain ⟨hwanted, hfailed⟩ := selectAlign_error halign
    exact ⟨_, .align htranscribe hwanted, hfailed⟩
  have hsame : ∀ key, key ≠ "word_timestamps" → key ≠ "timestamps_granularity" →
      flag effective key = flag parameters key := by
    intro key hwords hgranularity
    rw [flag, get?_effective halign key hwords hgranularity, flag]
  rcases bind_eq_error h with hdiarize | ⟨diarize, _, h⟩
  · obtain ⟨hwanted, hfailed⟩ := selectStage_error hdiarize
    have hspeaker := get?_effective halign "speaker_detection" (by decide) (by decide)
    rw [shouldAddDiarization, Dict.getD, hspeaker] at hwanted
    exact ⟨_, .diarize htranscribe hwanted, hfailed⟩
  have hpii := hsame "pii_detection" (by decide) (by decide)
  rcases bind_eq_error h with hdetect | ⟨pii, _, h⟩
  · obtain ⟨hwanted, hfailed⟩ := selectStage_error hdetect
    exact ⟨_, .piiDetect (hpii ▸ hwanted), hfailed⟩
  rcases bind_eq_error h with hredact | ⟨redact, _, h⟩
  · obtain ⟨hwanted, hfailed⟩ := selectStage_error hredact
    obtain ⟨hdetect, hredacts⟩ := (Bool.and_eq_true _ _).mp hwanted
    have haudio := hsame "redact_pii_audio" (by decide) (by decide)
    exact ⟨_, .audioRedact (hpii ▸ hdetect) (haudio ▸ hredacts), hfailed⟩
  · cases h

end Pipelines

section Jobs

variable {env : SelectionEnv} {parameters : Config} {stage : String}

/-- A value that is used as a text is none. -/
def IllTyped (value : Json) : Prop := value.truthy = true ∧ ∀ text, value ≠ .str text

/-- What the job asks of a stage. -/
structure Asks (env : SelectionEnv) (parameters : Config) (stage : String)
    (requirements : Requirements) (preference : Option String) : Prop where
  requirements : ∃ extracted, extractRequirements env parameters = .ok extracted ∧
    requirements = stageRequirements extracted stage
  preference : userPreference parameters stage = .ok preference

theorem explicit_of_extract {extracted : Requirements}
    (h : extractRequirements env parameters = .ok extracted) : Explicit env extracted := by
  simp only [extractRequirements] at h
  split at h
  · rename_i htruthy
    split at h
    · rename_i text htext
      obtain rfl := Except.ok.inj h
      have hne : text ≠ "" := by simpa [htext, Json.truthy] using htruthy
      by_cases hauto : env.lower text = "auto"
      · simp [Explicit, Requirements.explicitLanguage, hauto, EngineRecord.nonempty]
      · simp [Explicit, Requirements.explicitLanguage, hauto, EngineRecord.nonempty, hne]
    · cases h
  · obtain rfl := Except.ok.inj h
    rfl

theorem explicit_stageRequirements {extracted : Requirements} (h : Explicit env extracted) :
    Explicit env (stageRequirements extracted stage) := by
  simp only [stageRequirements]
  split
  · exact h
  · split
    · exact h
    · rfl

theorem illTyped_of_extract {failure : SelectionFailure}
    (h : extractRequirements env parameters = .error failure) :
    IllTyped (requestedLanguage parameters) := by
  simp only [extractRequirements] at h
  split at h
  · rename_i htruthy
    split at h
    · cases h
    · rename_i hnone
      exact ⟨htruthy, hnone⟩
  · cases h

theorem illTyped_of_preference {failure : SelectionFailure}
    (h : userPreference parameters stage = .error failure) :
    IllTyped (parameters.getD (preferenceKey stage) .null) := by
  simp only [userPreference] at h
  split at h
  · rename_i htruthy
    split at h
    · cases h
    · rename_i hnone
      exact ⟨htruthy, hnone⟩
  · cases h

/-- The selection of a stage of a job ends in a sound choice, for want of one, or in a value of
the wrong type. -/
theorem selectForJob_cases (env : SelectionEnv) (parameters : Config) (stage : String) :
    (∃ choice, selectForJob env parameters stage = .ok choice ∧
      ∃ requirements preference, Asks env parameters stage requirements preference ∧
        Sound env stage requirements choice preference) ∨
    ∃ failure, selectForJob env parameters stage = .error failure ∧
      (IllTyped (requestedLanguage parameters) ∨
        IllTyped (parameters.getD (preferenceKey stage) .null) ∨
        ∃ requirements preference, Asks env parameters stage requirements preference ∧
          Missing env stage requirements preference) := by
  rw [selectForJob]
  cases hextract : extractRequirements env parameters with
  | error failure => exact Or.inr ⟨failure, rfl, Or.inl (illTyped_of_extract hextract)⟩
  | ok extracted =>
      cases hpreference : userPreference parameters stage with
      | error failure =>
          exact Or.inr ⟨failure, rfl, Or.inr (Or.inl (illTyped_of_preference hpreference))⟩
      | ok preference =>
          have hasks : Asks env parameters stage (stageRequirements extracted stage) preference :=
            ⟨⟨extracted, hextract, rfl⟩, hpreference⟩
          have hexplicit : Explicit env (stageRequirements extracted stage) :=
            explicit_stageRequirements (explicit_of_extract hextract)
          have hmodel : (decide (stage = "align") || decide (stage = "pii_detect")) = true →
              stage = "align" ∨ stage = "pii_detect" := by
            simp
          rcases selectEngine_cases hexplicit preference hmodel with
            ⟨choice, hchoice, hsound⟩ | ⟨failure, hfailure, hmissing⟩
          · exact Or.inl ⟨choice, hchoice, _, _, hasks, hsound⟩
          · exact Or.inr ⟨failure, hfailure, Or.inr (Or.inr ⟨_, _, hasks, hmissing⟩)⟩

/-- A pipeline that is selected has a sound choice for each of its stages. A selection that fails
misses what the job asks of a stage that the pipeline needs, or a text among its parameters. -/
theorem engine_selection (env : SelectionEnv) (parameters : Config) :
    (∀ selection, selectPipeline env parameters = .ok selection → ∀ kv ∈ selection.stages,
      ∃ choice, kv.2 = choice.result.toStageSelection ∧
        ∃ requirements preference, Asks env parameters kv.1 requirements preference ∧
          Sound env kv.1 requirements choice preference) ∧
    ∀ error, selectPipeline env parameters = .error error →
      ∃ stage, Required (stageSelector env parameters) parameters stage ∧
        (IllTyped (requestedLanguage parameters) ∨
          IllTyped (parameters.getD (preferenceKey stage) .null) ∨
          ∃ requirements preference, Asks env parameters stage requirements preference ∧
            Missing env stage requirements preference) := by
  constructor
  · intro selection hselection kv hkv
    obtain ⟨selected, hselected, hresult⟩ := selectPipelineEngines_ok hselection kv hkv
    rcases selectForJob_cases env parameters kv.1 with
      ⟨choice, hchoice, hsound⟩ | ⟨failure, hfailure, _⟩
    · rw [stageSelector, hchoice] at hselected
      exact ⟨choice, hresult.trans (by rw [← Except.ok.inj hselected]), hsound⟩
    · rw [stageSelector, hfailure] at hselected
      cases hselected
  · intro error herror
    obtain ⟨stage, hrequired, hfailed⟩ := selectPipelineEngines_error herror
    rcases selectForJob_cases env parameters stage with
      ⟨choice, hchoice, _⟩ | ⟨failure, _, hmissing⟩
    · rw [stageSelector, hchoice] at hfailed
      cases hfailed
    · exact ⟨stage, hrequired, hmissing⟩

end Jobs

section Runs

/-- No engine runs. The catalog has one engine for each of two stages, to be started on demand,
and a model of one of them is ready. -/
def coldFleet : SelectionEnv where
  now := 0
  registry := ⟨[], fun _ => [], fun _ => [], by simp, by simp, by simp⟩
  catalog := ⟨[⟨"audio-prepare", unknownCapabilities "audio-prepare" "prepare", true⟩,
    ⟨"nemo", unknownCapabilities "nemo" "transcribe", true⟩], by decide⟩
  models := ⟨[⟨"parakeet", "nemo", "parakeet", "transcribe", .ready, none, none, none⟩], by decide⟩
  lower := id

def segmentJob : Config := [("timestamps_granularity", .str "segment")]

/-- Transcription is left to a cold engine without a model, though a fitting one is ready. -/
theorem cold_engine_without_model : ¬ ∀ selection, selectPipeline coldFleet segmentJob = .ok selection →
    ∀ kv ∈ selection.stages, kv.1 ∈ MODEL_BACKED_STAGES →
      ∃ model ∈ coldFleet.models.rows, kv.2.loadedModelId = some (resolveLoadedModelId model kv.1) := by
  intro h
  have hselection : (selectPipeline coldFleet segmentJob).toOption.map
      (·.stages.map fun kv => (kv.1, kv.2.engineId, kv.2.loadedModelId)) =
        some [("prepare", "audio-prepare", none), ("transcribe", "nemo", none)] := by
    decide +kernel
  cases hpipeline : selectPipeline coldFleet segmentJob with
  | error error => simp [hpipeline, Except.toOption] at hselection
  | ok selection =>
      simp only [hpipeline, Except.toOption, Option.map_some, Option.some.injEq] at hselection
      have hmem : ("transcribe", "nemo", none) ∈
          selection.stages.map fun kv => (kv.1, kv.2.engineId, kv.2.loadedModelId) := by
        rw [hselection]
        decide
      obtain ⟨kv, hkv, heq⟩ := List.mem_map.mp hmem
      simp only [Prod.mk.injEq] at heq
      obtain ⟨model, _, hloaded⟩ := h selection hpipeline kv hkv (by rw [heq.1]; decide)
      rw [heq.2.2] at hloaded
      cases hloaded

end Runs

end Dalston.Orchestrator.EngineSelector
