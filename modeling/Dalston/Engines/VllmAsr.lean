import Dalston.Foundation.Pool

/-!
# The unified vLLM process

One process serves the tasks of the queue, direct HTTP requests and the utterances of
realtime sessions. Its runner creates one vLLM instance and hands it to a batch adapter
and to a realtime adapter. Each of the two keeps a reference of its own, remembers which
model it stands for, and swaps the instance when a request names another model. Requests
run in threads side by side, and no lock is held between the check, the unload, the load
and the inference.

## Implementation notes

An instance is alive while the runner, an adapter or an inference refers to it. How the
steps outside the process go (the download, the construction of an instance, the hook of
the runner, the inference itself) is given with each request. Admission control lets a
request in or not before any of this and is left out, as are the states that only a health
check reports.
-/

namespace Dalston.Engines.VllmAsr

open Foundation

/-- The two adapters. -/
inductive Side
  | batch | realtime

structure Adapter where
  llm : Option Nat
  loadedModelId : Option String

/-- What the process is started with. -/
structure Config where
  defaultModelId : String
  hasStorage : Bool

structure Process where
  /-- The runner's own reference. -/
  runner : Nat
  batch : Adapter
  realtime : Adapter
  /-- The model of every instance created so far. -/
  instances : List String
  /-- The instances of the inferences under way. -/
  inUse : List Nat

namespace Process

def adapter (p : Process) : Side → Adapter
  | .batch => p.batch
  | .realtime => p.realtime

def setAdapter (p : Process) (side : Side) (a : Adapter) : Process :=
  match side with
  | .batch => { p with batch := a }
  | .realtime => { p with realtime := a }

def Alive (p : Process) (i : Nat) : Prop :=
  p.runner = i ∨ p.batch.llm = some i ∨ p.realtime.llm = some i ∨ i ∈ p.inUse

instance (p : Process) (i : Nat) : Decidable (p.Alive i) :=
  inferInstanceAs (Decidable (_ ∨ _))

/-- The adapters as the runner creates them; the realtime adapter has not started. -/
def started (config : Config) : Process where
  runner := 0
  batch := ⟨some 0, some config.defaultModelId⟩
  realtime := ⟨some 0, none⟩
  instances := [config.defaultModelId]
  inUse := []

@[simp] theorem adapter_setAdapter (p : Process) (side : Side) (a : Adapter) :
    (p.setAdapter side a).adapter side = a := by
  cases side <;> rfl

@[simp] theorem instances_setAdapter (p : Process) (side : Side) (a : Adapter) :
    (p.setAdapter side a).instances = p.instances := by
  cases side <;> rfl

end Process

/-- The steps of the threads. -/
inductive Effect
  | read
  /-- `del self._llm`, and the attributes set to `None`. -/
  | unload (side : Side)
  /-- `self._llm = LLM(...)`. -/
  | construct (side : Side) (model : String)
  /-- `self._loaded_model_id = ...`. -/
  | record (side : Side) (model : String)
  /-- The call that is given `self._llm`. -/
  | beginChat (side : Side)
  | endChat (i : Nat)

instance : Interprets Effect Process where
  apply
    | .read, p => p
    | .unload side, p => p.setAdapter side ⟨none, none⟩
    | .construct side model, p =>
        { p.setAdapter side ⟨some p.instances.length, (p.adapter side).loadedModelId⟩ with
            instances := p.instances ++ [model] }
    | .record side model, p => p.setAdapter side ⟨(p.adapter side).llm, some model⟩
    | .beginChat side, p => { p with inUse := (p.adapter side).llm.toList ++ p.inUse }
    | .endChat i, p => { p with inUse := p.inUse.erase i }

@[simp] theorem apply_read (p : Process) : apply Effect.read p = p := rfl

@[simp] theorem apply_unload (side : Side) (p : Process) :
    apply (Effect.unload side) p = p.setAdapter side ⟨none, none⟩ := rfl

@[simp] theorem apply_construct (side : Side) (model : String) (p : Process) :
    apply (Effect.construct side model) p =
      { p.setAdapter side ⟨some p.instances.length, (p.adapter side).loadedModelId⟩ with
          instances := p.instances ++ [model] } := rfl

@[simp] theorem apply_record (side : Side) (model : String) (p : Process) :
    apply (Effect.record side model) p = p.setAdapter side ⟨(p.adapter side).llm, some model⟩ := rfl

@[simp] theorem apply_beginChat (side : Side) (p : Process) :
    apply (Effect.beginChat side) p = { p with inUse := (p.adapter side).llm.toList ++ p.inUse } := rfl

@[simp] theorem apply_endChat (i : Nat) (p : Process) :
    apply (Effect.endChat i) p = { p with inUse := p.inUse.erase i } := rfl

abbrev Work := Program Effect Process

/-- A request, with how the steps outside the process go for it. -/
structure Request where
  loadedModelId : Option String
  fetches : Bool
  constructs : Bool
  reconfigures : Bool
  chats : Bool

/-- `params.loaded_model_id or self._default_model_id`. -/
def Request.model (config : Config) (r : Request) : String :=
  match r.loadedModelId with
  | none | some "" => config.defaultModelId
  | some model => model

/-- Every step outside the process goes well. -/
def Request.Succeeds (r : Request) : Prop :=
  r.fetches = true ∧ r.constructs = true ∧ r.reconfigures = true ∧ r.chats = true

inductive Failure
  | fetch | construct | reconfigure | chat
  /-- The inference is called on `None`. -/
  | noInstance
  deriving DecidableEq

/-- The failure is that of a step outside the process. -/
def Request.Suffers (r : Request) : Failure → Prop
  | .fetch => r.fetches = false
  | .construct => r.constructs = false
  | .reconfigure => r.reconfigures = false
  | .chat => r.chats = false
  | .noInstance => False

inductive Reply
  | transcript (i : Nat)
  | failed (failure : Failure)
  /-- The realtime adapter has started. -/
  | ready
  deriving DecidableEq

section Code

/-- Unload the adapter's instance if it has one. -/
def unloadCurrent (side : Side) : Work Unit := do
  let p ← Program.perform .read
  if (p.adapter side).llm.isSome then
    let _ ← Program.perform (.unload side)
    return ()
  else return ()

/-- Create an instance and remember its model. -/
def constructInstance (side : Side) (r : Request) (model : String) :
    Work (Except Failure Unit) := do
  if r.constructs then
    let _ ← Program.perform (.construct side model)
    let _ ← Program.perform (.record side model)
    return .ok ()
  else return .error .construct

/-- The batch adapter's swap: it takes the files from the storage if there is one, and tells
the runner. -/
def swapBatch (config : Config) (r : Request) (model : String) : Work (Except Failure Unit) := do
  unloadCurrent .batch
  if config.hasStorage && !r.fetches then return .error .fetch
  else
    match ← constructInstance .batch r model with
    | .error failure => return .error failure
    | .ok () => return if r.reconfigures then .ok () else .error .reconfigure

def swapRealtime (r : Request) (model : String) : Work (Except Failure Unit) := do
  unloadCurrent .realtime
  constructInstance .realtime r model

/-- `_ensure_model_loaded` of the adapters. Only the realtime adapter looks whether it has an
instance. -/
def ensureModelLoaded (config : Config) (side : Side) (r : Request) (model : String) :
    Work (Except Failure Unit) := do
  let p ← Program.perform .read
  match side with
  | .batch =>
      if p.batch.loadedModelId = some model then return .ok ()
      else swapBatch config r model
  | .realtime =>
      if p.realtime.loadedModelId = some model ∧ p.realtime.llm.isSome then return .ok ()
      else swapRealtime r model

/-- The inference on `self._llm`. -/
def infer (side : Side) (r : Request) : Work Reply := do
  let p ← Program.perform (.beginChat side)
  match (p.adapter side).llm with
  | none => return .failed .noInstance
  | some i =>
      let _ ← Program.perform (.endChat i)
      return if r.chats then .transcript i else .failed .chat

def afterEnsure (side : Side) (r : Request) : Except Failure Unit → Work Reply
  | .error failure => return .failed failure
  | .ok () => infer side r

/-- `_transcribe_with_vllm` and `transcribe_v1`. -/
def transcribe (config : Config) (side : Side) (r : Request) : Work Reply := do
  let loaded ← ensureModelLoaded config side r (r.model config)
  afterEnsure side r loaded

def afterLoad : Except Failure Unit → Reply
  | .error failure => .failed failure
  | .ok () => .ready

/-- `load_models` of the realtime adapter. -/
def loadModels (config : Config) (r : Request) : Work Reply := do
  let p ← Program.perform .read
  if p.realtime.llm.isSome then
    let _ ← Program.perform (.record .realtime config.defaultModelId)
    return .ready
  else
    let loaded ← ensureModelLoaded config .realtime r config.defaultModelId
    return afterLoad loaded

end Code

/-- What runs in the process. A direct HTTP request takes the way of a task of the queue. -/
inductive Call
  | loadModels (r : Request)
  | task (r : Request)
  | http (r : Request)
  | utterance (r : Request)

namespace Call

/-- The request to be transcribed and the adapter it goes through. -/
def request? : Call → Option (Side × Request)
  | loadModels _ => none
  | task r | http r => some (.batch, r)
  | utterance r => some (.realtime, r)

def code (config : Config) : Call → Work Reply
  | loadModels r => VllmAsr.loadModels config r
  | task r | http r => transcribe config .batch r
  | utterance r => transcribe config .realtime r

end Call

abbrev VllmPool := Pool Call Effect Process Reply

/-- The realtime adapter has started. -/
def Serving (pool : VllmPool) : Prop := ∃ ret ∈ pool.returned, ret.result = .ready

instance (pool : VllmPool) : Decidable (Serving pool) :=
  inferInstanceAs (Decidable (∃ ret ∈ pool.returned, ret.result = .ready))

/-- Requests come in any order, utterances once the realtime adapter has started. A thread is
not given up. -/
def AnyRequests (pool : VllmPool) : Turn Call Effect → Prop
  | .start (.utterance _) => Serving pool
  | .start _ | .move _ => True
  | .fail _ | .outside _ => False

instance (pool : VllmPool) : ∀ turn, Decidable (AnyRequests pool turn)
  | .start (.utterance _) => inferInstanceAs (Decidable (Serving pool))
  | .start (.loadModels _) | .start (.task _) | .start (.http _) | .move _ => isTrue trivial
  | .fail _ | .outside _ => isFalse id

end Dalston.Engines.VllmAsr
