import Mathlib
import Dalston.Registry.Records

/-!
# Heartbeats of engine instances

The hash of an instance is written whole when the instance is registered and
expires unless heartbeats refresh it. A heartbeat that comes after the expiry
creates the hash again from the fields it sends. So the static fields it does
not send are lost, and every later heartbeat keeps the shortened hash alive.

## Implementation notes

The time to live is not modelled: a key may expire at any moment. A runner
sends heartbeats for the record it has registered, with any status and any
metrics.
-/

namespace Dalston.Registry

open Foundation Model

/-- The keyword arguments of `heartbeat`. -/
structure HeartbeatFields where
  status : Option String := none
  activeBatch : Option Int := none
  activeRealtime : Option Int := none
  loadedModel : Option String := none
  modelsLoaded : Option (List String) := none
  gpuMemoryUsed : Option String := none
  engineId : Option String := none
  stage : Option String := none
  interfaces : Option (List String) := none
  endpoint : Option String := none
  capacity : Option Int := none
  hostname : Option String := none
  nodeId : Option String := none
  deployEnv : Option String := none

/-- The mapping a heartbeat writes: only fields that are provided. -/
def HeartbeatFields.toMapping (now : Time) (instanceId : String) (f : HeartbeatFields) : Hash :=
  List.flatten [
    [("last_heartbeat", .instant now), ("instance", .text instanceId)],
    Dict.optional "status" (f.status.map .text),
    Dict.optional "active_batch" (f.activeBatch.map .int),
    Dict.optional "active_realtime" (f.activeRealtime.map .int),
    Dict.optional "loaded_model" (f.loadedModel.map .text),
    Dict.optional "models_loaded" (f.modelsLoaded.map .list),
    Dict.optional "gpu_memory_used" (f.gpuMemoryUsed.map .text),
    Dict.optional "engine_id" (f.engineId.map .text),
    Dict.optional "stage" (f.stage.map .text),
    Dict.optional "interfaces" (f.interfaces.map .list),
    Dict.optional "endpoint" (f.endpoint.map .text),
    Dict.optional "capacity" (f.capacity.map .int),
    Dict.optional "hostname" (f.hostname.map .text),
    Dict.optional "node_id" (f.nodeId.map .text),
    Dict.optional "deploy_env" (f.deployEnv.map .text)]

/-- The instance keys of the registry. -/
abbrev Keys := String → Option Hash

/-- `HSET` merges into the hash and creates it when the key is missing. -/
def hset (keys : Keys) (instanceId : String) (mapping : Hash) : Keys :=
  Function.update keys instanceId (some (Dict.merge ((keys instanceId).getD []) mapping))

namespace UnifiedEngineRegistry

def register (now : Time) (record : EngineRecord) (keys : Keys) : Keys :=
  hset keys record.instanceId (record.toMapping now)

def heartbeat (now : Time) (instanceId : String) (fields : HeartbeatFields) (keys : Keys) : Keys :=
  hset keys instanceId (fields.toMapping now instanceId)

/-- `get_by_instance`. -/
def getByInstance (keys : Keys) (instanceId : String) : Option EngineRecord :=
  (keys instanceId).bind (EngineRecord.ofMapping instanceId)

end UnifiedEngineRegistry

namespace UnifiedRegistryWriter

/-- The synchronous writer writes the same mapping. -/
def register (now : Time) (record : EngineRecord) (keys : Keys) : Keys :=
  hset keys record.instanceId (record.toMapping now)

def heartbeat (now : Time) (instanceId : String) (fields : HeartbeatFields) (keys : Keys) : Keys :=
  hset keys instanceId (fields.toMapping now instanceId)

end UnifiedRegistryWriter

/-- What a batch engine runner finds when it sends a heartbeat. -/
structure BatchReport where
  currentTask : Bool
  supportsRealtime : Bool
  engineStatus : String
  loadedModel : Option String
  gpuMemoryUsed : String

def BatchReport.status (report : BatchReport) : String :=
  if report.currentTask then if report.supportsRealtime then "busy" else "processing"
  else if report.engineStatus = "idle" ∧ report.supportsRealtime then "ready"
  else report.engineStatus

/-- The heartbeat of `EngineRunner._heartbeat_loop`. -/
def BatchReport.fields (report : BatchReport) (record : EngineRecord) : HeartbeatFields where
  status := some report.status
  activeBatch := some (if report.currentTask then 1 else 0)
  loadedModel := report.loadedModel
  engineId := some record.engineId
  stage := some record.stage
  interfaces := some record.interfaces
  hostname := some record.hostname
  nodeId := some record.nodeId
  deployEnv := some record.deployEnv
  gpuMemoryUsed := some report.gpuMemoryUsed

/-- What a realtime engine finds when it sends a heartbeat. -/
structure RealtimeReport where
  active : Nat
  loadedModels : Option (List String)
  gpuMemoryUsed : String

/-- The heartbeat of `RealtimeEngine._heartbeat_loop`; the capacity it registered is
its `max_sessions`. -/
def RealtimeReport.fields (report : RealtimeReport) (record : EngineRecord) : HeartbeatFields where
  status := some (if report.active < record.capacity then "ready" else "busy")
  activeRealtime := some report.active
  modelsLoaded := report.loadedModels
  gpuMemoryUsed := some report.gpuMemoryUsed
  engineId := some record.engineId
  stage := some record.stage
  interfaces := some record.interfaces
  endpoint := record.endpoint
  capacity := some record.capacity
  hostname := some record.hostname
  nodeId := some record.nodeId
  deployEnv := some record.deployEnv

/-- The registry's keys and the record each instance has registered last. -/
structure Fleet where
  keys : Keys
  registered : String → Option EngineRecord

def Fleet.empty : Fleet := ⟨fun _ => none, fun _ => none⟩

/-- What happens to the keys of engine instances. -/
inductive RegistryEvent
  | register (now : Time) (record : EngineRecord)
  | batchHeartbeat (now : Time) (instanceId : String) (report : BatchReport)
  | realtimeHeartbeat (now : Time) (instanceId : String) (report : RealtimeReport)
  | expire (instanceId : String)

namespace Fleet

/-- An instance that has not registered sends no heartbeat. -/
def beat (fleet : Fleet) (now : Time) (instanceId : String)
    (fields : EngineRecord → HeartbeatFields) : Fleet :=
  match fleet.registered instanceId with
  | none => fleet
  | some record =>
      { fleet with
          keys := UnifiedEngineRegistry.heartbeat now instanceId (fields record) fleet.keys }

def apply (fleet : Fleet) : RegistryEvent → Fleet
  | .register now record =>
      { keys := UnifiedEngineRegistry.register now record fleet.keys
        registered := Function.update fleet.registered record.instanceId (some record) }
  | .batchHeartbeat now instanceId report => fleet.beat now instanceId report.fields
  | .realtimeHeartbeat now instanceId report => fleet.beat now instanceId report.fields
  | .expire instanceId => { fleet with keys := Function.update fleet.keys instanceId none }

end Fleet

/-- The fields of a record that its heartbeats do not report anew. -/
structure StaticFields where
  runtime : String
  stage : String
  capacity : Int
  capabilities : Option EngineCapabilities
  streamName : Option String
  executionProfile : String
  supportsWordTimestamps : Bool
  modelsLoaded : Option (List String)

def EngineRecord.staticFields (r : EngineRecord) : StaticFields where
  runtime := r.engineId
  stage := r.stage
  capacity := r.capacity
  capabilities := r.capabilities
  streamName := r.streamName
  executionProfile := r.executionProfile
  supportsWordTimestamps := r.supportsWordTimestamps
  modelsLoaded := r.modelsLoaded

section Decoding

open EngineRecord

/-- The static fields as they are decoded from a hash. -/
def decodedStatics (data : Hash) : StaticFields where
  runtime := (field data "engine_id" FieldText.asText).getD ""
  stage := (field data "stage" FieldText.asText).getD "unknown"
  capacity := (field data "capacity" FieldText.asInt).getD 1
  capabilities := field data "capabilities" FieldText.asCapabilities
  streamName := field data "stream_name" FieldText.asText
  executionProfile := (field data "execution_profile" FieldText.asText).getD "container"
  supportsWordTimestamps := field data "supports_word_timestamps" FieldText.asText = some "true"
  modelsLoaded := field data "models_loaded" FieldText.asList

theorem staticFields_of_ofMapping {instanceId : String} {data : Hash} {record : EngineRecord}
    (h : ofMapping instanceId data = some record) :
    record.staticFields = decodedStatics data := by
  unfold ofMapping at h
  split at h
  · cases h
  · rename_i engineId hid
    cases h
    have hfield : field data "engine_id" FieldText.asText = some engineId := by
      unfold nonempty at hid
      split at hid
      · cases hid
      · exact hid
    simp [staticFields, decodedStatics, hfield]

/-- The optional static fields of a hash are all written again by a registration. -/
def Overwrites (record : EngineRecord) (old : Hash) : Prop :=
  (old.get? "models_loaded" ≠ none → record.modelsLoaded ≠ none) ∧
    (old.get? "stream_name" ≠ none → record.streamName ≠ none) ∧
    (old.get? "capabilities" ≠ none → record.capabilities ≠ none)

/-- A field that may have been written over is read as what was written, or as before. -/
theorem bind_or_map {A : Type} (write : A → FieldText) (read : FieldText → Option A)
    (hread : ∀ a, read (write a) = some a) (value : Option A) (old : Option FieldText) :
    ((value.map write).or old).bind read = value.or (old.bind read) := by
  cases value with
  | none => rfl
  | some a => exact hread a

theorem or_bind_eq_left {A : Type} {read : FieldText → Option A} {value : Option A}
    {old : Option FieldText} (h : old ≠ none → value ≠ none) :
    value.or (old.bind read) = value := by
  cases old with
  | none => simp
  | some text =>
      obtain ⟨a, rfl⟩ := Option.ne_none_iff_exists'.mp (h (by simp))
      rfl

theorem decodedStatics_register {record : EngineRecord} {old : Hash} (now : Time)
    (h : Overwrites record old) :
    decodedStatics (Dict.merge old (record.toMapping now)) = record.staticFields := by
  obtain ⟨hmodels, hstream, hcaps⟩ := h
  have htext := bind_or_map .text FieldText.asText fun _ => rfl
  have hlist := bind_or_map .list FieldText.asList fun _ => rfl
  have hcapabilities := bind_or_map .capabilities FieldText.asCapabilities fun _ => rfl
  simp [decodedStatics, staticFields, field, toMapping, requiredFields, optionalFields,
    Dict.get?_merge_optional, Dict.get?_set, FieldText.asText, FieldText.asInt, FieldText.bool,
    htext, hlist, hcapabilities, or_bind_eq_left hmodels, or_bind_eq_left hstream,
    or_bind_eq_left hcaps]

end Decoding

/-- The static fields after a heartbeat: what it sends wins, the rest stays. -/
def StaticFields.reported (statics : StaticFields) (f : HeartbeatFields) : StaticFields :=
  { statics with
      runtime := f.engineId.getD statics.runtime
      stage := f.stage.getD statics.stage
      capacity := f.capacity.getD statics.capacity
      modelsLoaded := f.modelsLoaded.or statics.modelsLoaded }


theorem decodedStatics_heartbeat (old : Hash) (now : Time) (instanceId : String)
    (f : HeartbeatFields) :
    decodedStatics (Dict.merge old (f.toMapping now instanceId)) =
      (decodedStatics old).reported f := by
  have htext := bind_or_map .text FieldText.asText fun _ => rfl
  have hint := bind_or_map .int FieldText.asInt fun _ => rfl
  have hlist := bind_or_map .list FieldText.asList fun _ => rfl
  have hsome {A : Type} (value : Option A) (old : Option A) (default : A) :
      (value.or old).getD default = value.getD (old.getD default) := by
    cases value <;> rfl
  simp [decodedStatics, StaticFields.reported, EngineRecord.field, HeartbeatFields.toMapping,
    Dict.get?_merge_optional, Dict.get?_set, htext, hint, hlist, hsome]
  rfl

/-- What the heartbeat does not send has the value a reader puts for a missing field. -/
structure Restores (record : EngineRecord) (f : HeartbeatFields) : Prop where
  capacity : f.capacity = none → record.capacity = 1
  capabilities : record.capabilities = none
  streamName : record.streamName = none
  executionProfile : record.executionProfile = "container"
  supportsWordTimestamps : record.supportsWordTimestamps = false
  modelsLoaded : f.modelsLoaded = none → record.modelsLoaded = none

/-- The heartbeat reports no other models than the registered ones, and it finds the
key or restores everything. -/
structure Restates (fleet : Fleet) (instanceId : String) (record : EngineRecord)
    (f : HeartbeatFields) : Prop where
  models : f.modelsLoaded = none ∨ f.modelsLoaded = record.modelsLoaded
  restores : fleet.keys instanceId = none → Restores record f

/-- A registration overwrites what an earlier one has left, and heartbeats restate. -/
def KeepsStatics (fleet : Fleet) : RegistryEvent → Prop
  | .register _ record => ∀ old, fleet.keys record.instanceId = some old → Overwrites record old
  | .batchHeartbeat _ instanceId report =>
      ∀ record, fleet.registered instanceId = some record →
        Restates fleet instanceId record (report.fields record)
  | .realtimeHeartbeat _ instanceId report =>
      ∀ record, fleet.registered instanceId = some record →
        Restates fleet instanceId record (report.fields record)
  | .expire _ => True

/-- What every runner sends of the record it has registered. -/
structure Sends (record : EngineRecord) (f : HeartbeatFields) : Prop where
  engineId : f.engineId = some record.engineId
  stage : f.stage = some record.stage
  capacity : f.capacity = none ∨ f.capacity = some record.capacity

theorem BatchReport.sends (report : BatchReport) (record : EngineRecord) :
    Sends record (report.fields record) :=
  ⟨rfl, rfl, Or.inl rfl⟩

theorem RealtimeReport.sends (report : RealtimeReport) (record : EngineRecord) :
    Sends record (report.fields record) :=
  ⟨rfl, rfl, Or.inr rfl⟩

section Reported

variable {record : EngineRecord} {f : HeartbeatFields}

/-- A heartbeat on a hash that carries the record's static fields leaves them. -/
theorem reported_staticFields (hsends : Sends record f)
    (hmodels : f.modelsLoaded = none ∨ f.modelsLoaded = record.modelsLoaded) :
    record.staticFields.reported f = record.staticFields := by
  have hcapacity : f.capacity.getD record.capacity = record.capacity := by
    rcases hsends.capacity with h | h <;> simp [h]
  have hloaded : f.modelsLoaded.or record.modelsLoaded = record.modelsLoaded := by
    rcases hmodels with h | h <;> simp [h]
  simp [StaticFields.reported, EngineRecord.staticFields, hsends.engineId, hsends.stage,
    hcapacity, hloaded]

/-- A heartbeat that creates the hash again gives the static fields it restores. -/
theorem reported_nil (hsends : Sends record f)
    (hmodels : f.modelsLoaded = none ∨ f.modelsLoaded = record.modelsLoaded)
    (hrestores : Restores record f) :
    (decodedStatics []).reported f = record.staticFields := by
  have hcapacity : f.capacity.getD 1 = record.capacity := by
    rcases hsends.capacity with h | h
    · simp [h, hrestores.capacity h]
    · simp [h]
  have hloaded : f.modelsLoaded = record.modelsLoaded := by
    rcases hmodels with h | h
    · rw [h, hrestores.modelsLoaded h]
    · exact h
  simp [StaticFields.reported, decodedStatics, EngineRecord.field, EngineRecord.staticFields,
    hsends.engineId, hsends.stage, hcapacity, hloaded, hrestores.capabilities,
    hrestores.streamName, hrestores.executionProfile, hrestores.supportsWordTimestamps]

end Reported

/-- Every hash carries the static fields its instance has registered. -/
def Faithful (fleet : Fleet) : Prop :=
  ∀ instanceId data, fleet.keys instanceId = some data →
    ∃ record, fleet.registered instanceId = some record ∧
      decodedStatics data = record.staticFields

theorem faithful_empty : Faithful .empty := by
  intro instanceId data h
  cases h

theorem faithful_beat {fleet : Fleet} (h : Faithful fleet) {now : Time} {instanceId : String}
    {fields : EngineRecord → HeartbeatFields} (hsends : ∀ record, Sends record (fields record))
    (hok : ∀ record, fleet.registered instanceId = some record →
      Restates fleet instanceId record (fields record)) :
    Faithful (fleet.beat now instanceId fields) := by
  unfold Fleet.beat
  split
  · exact h
  · rename_i record hrecord
    obtain ⟨hmodels, hrestores⟩ := hok record hrecord
    intro other data hdata
    by_cases hother : other = instanceId
    · subst hother
      refine ⟨record, hrecord, ?_⟩
      simp only [UnifiedEngineRegistry.heartbeat, hset, Function.update_self,
        Option.some.injEq] at hdata
      rw [← hdata, decodedStatics_heartbeat]
      rcases hold : fleet.keys other with _ | old
      · exact reported_nil (hsends record) hmodels (hrestores hold)
      · obtain ⟨record', hrecord', hstatics⟩ := h other old hold
        obtain rfl := Option.some.inj (hrecord.symm.trans hrecord')
        rw [Option.getD_some, hstatics]
        exact reported_staticFields (hsends record) hmodels
    · simp only [UnifiedEngineRegistry.heartbeat, hset, Function.update_of_ne hother] at hdata
      exact h other data hdata

/-- One event of the registry keeps every hash faithful. -/
theorem faithful_apply {fleet : Fleet} (h : Faithful fleet) {e : RegistryEvent}
    (hok : KeepsStatics fleet e) : Faithful (fleet.apply e) := by
  cases e with
  | register now record =>
      intro other data hdata
      by_cases hother : other = record.instanceId
      · subst hother
        simp only [Fleet.apply, UnifiedEngineRegistry.register, hset, Function.update_self,
          Option.some.injEq] at hdata
        refine ⟨record, by simp [Fleet.apply], ?_⟩
        rw [← hdata]
        apply decodedStatics_register
        rcases hold : fleet.keys record.instanceId with _ | old
        · simp [Overwrites]
        · exact hok old hold
      · simp only [Fleet.apply, UnifiedEngineRegistry.register, hset,
          Function.update_of_ne hother] at hdata ⊢
        exact h other data hdata
  | batchHeartbeat now instanceId report => exact faithful_beat h report.sends hok
  | realtimeHeartbeat now instanceId report => exact faithful_beat h report.sends hok
  | expire instanceId =>
      intro other data hdata
      by_cases hother : other = instanceId
      · subst hother
        simp [Fleet.apply] at hdata
      · simp only [Fleet.apply, Function.update_of_ne hother] at hdata
        exact h other data hdata

/-- One event that the condition allows. -/
inductive FleetStep (ok : Fleet → RegistryEvent → Prop) : Fleet → Fleet → Prop
  | event {fleet : Fleet} (e : RegistryEvent) (h : ok fleet e) : FleetStep ok fleet (fleet.apply e)

abbrev FleetRun (ok : Fleet → RegistryEvent → Prop) : Fleet → Fleet → Prop :=
  Relation.ReflTransGen (FleetStep ok)

theorem faithful_run {fleet fleet' : Fleet} (run : FleetRun KeepsStatics fleet fleet')
    (h : Faithful fleet) : Faithful fleet' := by
  induction run with
  | refl => exact h
  | tail _ step ih =>
      cases step with
      | event e hok => exact faithful_apply ih hok

/-- A hash whose engine id is read as a nonempty text is a record. -/
theorem isSome_ofMapping {instanceId : String} {data : Hash}
    (h : (decodedStatics data).runtime ≠ "") : (EngineRecord.ofMapping instanceId data).isSome := by
  unfold EngineRecord.ofMapping
  rcases hid : EngineRecord.field data "engine_id" FieldText.asText with _ | engineId
  · simp [decodedStatics, hid] at h
  · have hne : engineId ≠ "" := by simpa [decodedStatics, hid] using h
    simp [EngineRecord.nonempty, hne]

/-- As long as registrations overwrite and heartbeats restate, an instance's hash is a
record with the static fields that the instance registered. -/
theorem staticFields_of_run {fleet : Fleet} (run : FleetRun KeepsStatics .empty fleet)
    {instanceId : String} {data : Hash} (h : fleet.keys instanceId = some data) :
    ∃ registered, fleet.registered instanceId = some registered ∧
      (registered.engineId ≠ "" →
        (UnifiedEngineRegistry.getByInstance fleet.keys instanceId).isSome) ∧
      ∀ record, UnifiedEngineRegistry.getByInstance fleet.keys instanceId = some record →
        record.staticFields = registered.staticFields := by
  obtain ⟨registered, hregistered, hstatics⟩ := faithful_run run faithful_empty _ data h
  have hget : UnifiedEngineRegistry.getByInstance fleet.keys instanceId =
      EngineRecord.ofMapping instanceId data := by
    simp [UnifiedEngineRegistry.getByInstance, h]
  refine ⟨registered, hregistered, ?_, ?_⟩
  · intro hne
    rw [hget]
    apply isSome_ofMapping
    rwa [hstatics]
  · intro record hrecord
    rw [hget] at hrecord
    exact (staticFields_of_ofMapping hrecord).trans hstatics

section Samples

/-- A batch engine as its runner registers it. -/
def sampleEngine : EngineRecord where
  instanceId := "whisper-1"
  engineId := "whisper"
  stage := "transcribe"
  status := "idle"
  interfaces := ["batch"]
  streamName := some "dalston:stream:whisper"
  capabilities := some { engineId := "whisper", version := "1.0", stages := ["transcribe"] }

def sampleReport : BatchReport where
  currentTask := false
  supportsRealtime := false
  engineStatus := "idle"
  loadedModel := none
  gpuMemoryUsed := "0GB"

def sampleBeat : RegistryEvent := .batchHeartbeat 10 "whisper-1" sampleReport

/-- The engine has registered and sent a heartbeat. -/
def beaten : Fleet := (Fleet.empty.apply (.register 0 sampleEngine)).apply sampleBeat

/-- The engine has registered, its key has expired, and then it has sent a heartbeat. -/
def reborn : Fleet :=
  ((Fleet.empty.apply (.register 0 sampleEngine)).apply (.expire "whisper-1")).apply sampleBeat

theorem beaten_run : FleetRun KeepsStatics .empty beaten := by
  have hregister : KeepsStatics .empty (.register 0 sampleEngine) := by
    intro old hold
    cases hold
  have hbeat : KeepsStatics (Fleet.empty.apply (.register 0 sampleEngine)) sampleBeat := by
    intro record _
    constructor
    · exact Or.inl rfl
    · intro hmissing
      cases hmissing
  exact (Relation.ReflTransGen.single (.event _ hregister)).tail (.event _ hbeat)

theorem reborn_run : FleetRun (fun _ _ => True) .empty reborn :=
  ((Relation.ReflTransGen.single (.event _ trivial)).tail (.event _ trivial)).tail
    (.event _ trivial)

end Samples

theorem staticFields_of_run_beaten :
    ∃ registered, beaten.registered "whisper-1" = some registered ∧
      (registered.engineId ≠ "" →
        (UnifiedEngineRegistry.getByInstance beaten.keys "whisper-1").isSome) ∧
      ∀ record, UnifiedEngineRegistry.getByInstance beaten.keys "whisper-1" = some record →
        record.staticFields = registered.staticFields := by
  have hkey : (beaten.keys "whisper-1").isSome := by decide
  obtain ⟨data, hdata⟩ := Option.isSome_iff_exists.mp hkey
  exact staticFields_of_run beaten_run hdata

/-- A heartbeat after the key has expired loses the capabilities and the stream. -/
theorem staticFields_lost_on_expiry :
    ¬ ∀ fleet, FleetRun (fun _ _ => True) .empty fleet → ∀ instanceId record,
      UnifiedEngineRegistry.getByInstance fleet.keys instanceId = some record →
        ∃ registered, fleet.registered instanceId = some registered ∧
          record.staticFields = registered.staticFields := by
  intro h
  have hrecord : (UnifiedEngineRegistry.getByInstance reborn.keys "whisper-1").isSome := by decide
  obtain ⟨record, hrecord⟩ := Option.isSome_iff_exists.mp hrecord
  obtain ⟨registered, hregistered, hstatics⟩ := h _ reborn_run _ _ hrecord
  have hsample : registered = sampleEngine := by
    have hreg : reborn.registered "whisper-1" = some sampleEngine := rfl
    exact Option.some.inj (hregistered.symm.trans hreg)
  have hstream : record.streamName = none := by
    have hlookup : ((UnifiedEngineRegistry.getByInstance reborn.keys "whisper-1").map
        EngineRecord.streamName) = some none := by decide
    rw [hrecord] at hlookup
    exact Option.some.inj hlookup
  have hlost : record.streamName = some "dalston:stream:whisper" := by
    have := congrArg StaticFields.streamName hstatics
    rwa [hsample] at this
  rw [hstream] at hlost
  cases hlost

end Dalston.Registry
