import Dalston.Foundation.Dict
import Dalston.Foundation.Pool

/-!
# The shared NeMo models

Batch tasks, direct requests and realtime utterances share the model objects of one
manager. The manager loads an object when a model is first acquired, counts the holders,
and evicts idle objects; the next holder gets a new object under the same model id. A
batch task sets up local attention and confidence once per model id, and a task with
vocabulary changes the decoding configuration of the object while it holds it.

## Implementation notes

A call of the manager is one step, since it is made under a lock. A vocabulary file is
given by its lines. The decoder of an object is built from a configuration when that is
applied; the reset writes to the object's own configuration before it applies it. How the
calls of the library and of the file system go is given with each task.
-/

namespace Dalston.Engines.Nemo

open Foundation

structure BoostingTree where
  /-- The lines of the file. -/
  keyPhrasesFile : Option (List String)
  contextScore : Rat
  depthScaling : Rat
  deriving DecidableEq

/-- `model.cfg.decoding`. -/
structure DecodingConfig where
  strategy : String
  preserveWordConfidence : Bool
  boostingTree : Option BoostingTree
  boostingTreeAlpha : Rat
  deriving DecidableEq

namespace DecodingConfig

def keyPhrases (c : DecodingConfig) : Option (List String) :=
  c.boostingTree.bind (·.keyPhrasesFile)

/-- The configuration that `_ensure_confidence` applies. -/
def withConfidence (c : DecodingConfig) : DecodingConfig := { c with preserveWordConfidence := true }

/-- The configuration that `_configure_vocabulary_boosting` applies. -/
def boost (c : DecodingConfig) (terms : List String) : DecodingConfig :=
  { c with
      strategy := "greedy_batch"
      boostingTree := c.boostingTree.map fun _ => ⟨some terms, 1, 2⟩
      boostingTreeAlpha := 1 / 2 }

/-- The configuration that `_reset_decoding_strategy` applies. -/
def reset (c : DecodingConfig) : DecodingConfig :=
  match c.boostingTree with
  | none => { c with strategy := "greedy_batch" }
  | some tree =>
      { c with
          strategy := "greedy_batch"
          boostingTree := some { tree with keyPhrasesFile := none }
          boostingTreeAlpha := 0 }

end DecodingConfig

/-- A model object. -/
structure NemoModel where
  modelId : String
  /-- Local attention has been set up or attempted on the object. -/
  attention : Bool
  /-- Confidence has been set up or attempted on the object. -/
  confidence : Bool
  cfg : DecodingConfig
  /-- The configuration in force. -/
  decoding : DecodingConfig

/-- What the process is started with, and the models as they are published. -/
structure Config where
  defaultModelId : String
  maxLoaded : Nat
  ttlSeconds : Nat
  /-- `DALSTON_NEMO_CONFIDENCE` is on. -/
  confidence : Bool
  fresh : String → DecodingConfig
  lower : String → String
  upper : String → String
  capitalize : String → String

namespace Config

variable (config : Config)

/-- The lines of the vocabulary file. -/
def expandedTerms (vocabulary : List String) : List String :=
  (vocabulary.flatMap fun term =>
    [term, config.lower term, config.upper term, config.capitalize term]).dedup.insertionSort
      (· ≤ ·)

/-- The confidence set-up, if it is on. -/
def setUp (c : DecodingConfig) : DecodingConfig := if config.confidence then c.withConfidence else c

/-- A model's decoding configuration, set up. -/
def base (m : String) : DecodingConfig := config.setUp (config.fresh m)

def boosts (m : String) (vocabulary : List String) : Prop :=
  vocabulary ≠ [] ∧ (config.fresh m).boostingTree.isSome

instance (m : String) (vocabulary : List String) : Decidable (config.boosts m vocabulary) :=
  inferInstanceAs (Decidable (_ ∧ _))

/-- The configuration for a model and a vocabulary. -/
def inForce (m : String) (vocabulary : List String) : DecodingConfig :=
  if config.boosts m vocabulary then (config.base m).boost (config.expandedTerms vocabulary)
  else config.base m

end Config

/-- An entry of the manager. -/
structure LoadedModel where
  object : Nat
  refCount : Nat
  lastUsedAt : Nat

/-- An inference under way. -/
structure Inference where
  object : Nat
  modelId : String
  vocabulary : List String
  batch : Bool
  deriving DecidableEq

structure Core where
  now : Nat
  models : Dict LoadedModel
  objects : Nat → NemoModel
  created : Nat
  localAttentionApplied : List String
  boostingSupport : Dict Bool
  confidenceApplied : List String
  inferring : List Inference

section Manager

/-- The first entry that has been idle longest. -/
def oldest : Dict LoadedModel → Option (String × LoadedModel)
  | [] => none
  | kv :: rest =>
      match oldest rest with
      | none => some kv
      | some kv' => if kv'.2.lastUsedAt < kv.2.lastUsedAt then some kv' else some kv

theorem oldest_mem {d : Dict LoadedModel} {kv : String × LoadedModel} (h : oldest d = some kv) :
    kv ∈ d := by
  induction d generalizing kv with
  | nil => cases h
  | cons kv₀ rest ih =>
      rw [oldest] at h
      cases hrest : oldest rest with
      | none =>
          rw [hrest] at h
          exact List.mem_cons.mpr (.inl (Option.some.inj h).symm)
      | some kv' =>
          rw [hrest] at h
          dsimp only at h
          split at h
          · exact List.mem_cons_of_mem _ (Option.some.inj h ▸ ih hrest)
          · exact List.mem_cons.mpr (.inl (Option.some.inj h).symm)

namespace Core

/-- `_maybe_evict_for_capacity`. -/
def makeRoom (s : Core) (maxLoaded : Nat) : Option Core :=
  if s.models.length < maxLoaded then some s
  else
    match oldest (s.models.filter fun kv => kv.2.refCount = 0) with
    | none => none
    | some (lru, _) => some { s with models := s.models.erase lru }

/-- `from_pretrained`: a new object with the configuration the model is published with. -/
def load (s : Core) (m : String) (fresh : DecodingConfig) : Core :=
  { s with
      objects := Function.update s.objects s.created ⟨m, false, false, fresh, fresh⟩
      created := s.created + 1 }

/-- Count one more holder of an entry. -/
def hold (s : Core) (m : String) (entry : LoadedModel) : Core :=
  { s with models := s.models.set m ⟨entry.object, entry.refCount + 1, s.now⟩ }

/-- `acquire`: what it leaves, and the object unless it raises. A load that is needed gives
an object or fails. -/
def acquire (s : Core) (m : String) (maxLoaded : Nat) (loads : Option DecodingConfig) :
    Core × Option Nat :=
  match s.models.get? m with
  | some entry => (s.hold m entry, some entry.object)
  | none =>
      match s.makeRoom maxLoaded, loads with
      | none, _ => (s, none)
      | some s', none => (s', none)
      | some s', some fresh =>
          ((s'.load m fresh).hold m ⟨s'.created, 0, s'.now⟩, some s'.created)

section Acquire

variable {s room : Core} {m : String} {maxLoaded : Nat}

theorem acquire_of_loaded {entry : LoadedModel} (h : s.models.get? m = some entry)
    (loads : Option DecodingConfig) :
    s.acquire m maxLoaded loads = (s.hold m entry, some entry.object) := by
  simp [acquire, h]

theorem acquire_of_full (h : s.models.get? m = none) (hroom : s.makeRoom maxLoaded = none)
    (loads : Option DecodingConfig) : s.acquire m maxLoaded loads = (s, none) := by
  simp [acquire, h, hroom]

theorem acquire_of_failed (h : s.models.get? m = none) (hroom : s.makeRoom maxLoaded = some room) :
    s.acquire m maxLoaded none = (room, none) := by
  simp [acquire, h, hroom]

theorem acquire_of_room (h : s.models.get? m = none) (hroom : s.makeRoom maxLoaded = some room)
    (fresh : DecodingConfig) :
    s.acquire m maxLoaded (some fresh) =
      ((room.load m fresh).hold m ⟨room.created, 0, room.now⟩, some room.created) := by
  simp [acquire, h, hroom]

end Acquire

def release (s : Core) (m : String) : Core :=
  match s.models.get? m with
  | none => s
  | some entry =>
      { s with models := s.models.set m { entry with refCount := entry.refCount - 1 } }

/-- The ids of the entries idle longer than the time to live. -/
def expired (s : Core) (ttlSeconds : Nat) : List String :=
  (s.models.filter fun kv =>
    kv.2.refCount = 0 ∧ ttlSeconds < s.now - kv.2.lastUsedAt).map (·.1)

def refCount (s : Core) (m : String) : Nat := ((s.models.get? m).map (·.refCount)).getD 0

/-- `_model_supports_boosting`: the answer kept for the id, or what the object shows. -/
def supports (s : Core) (m : String) (obj : Nat) : Bool :=
  (s.boostingSupport.get? m).getD (s.objects obj).cfg.boostingTree.isSome

def change (s : Core) (obj : Nat) (f : NemoModel → NemoModel) : Core :=
  { s with objects := Function.update s.objects obj (f (s.objects obj)) }

end Core

end Manager

inductive Effect
  | acquire (m : String) (maxLoaded : Nat) (loads : Option DecodingConfig)
  | release (m : String)
  | read
  | enableAttention (obj : Nat)
  | markAttention (m : String)
  | markConfidence (m : String)
  | applyConfidence (obj : Nat) (succeeds : Bool)
  | probe (m : String) (obj : Nat)
  | configure (obj : Nat) (terms : List String) (succeeds : Bool)
  | begin (inference : Inference)
  | finish (inference : Inference)
  | reset (obj : Nat) (succeeds : Bool)
  /-- The eviction thread. -/
  | evictExpired (ttlSeconds : Nat)
  | tick

/-- `change_decoding_strategy` with a configuration of its own. -/
def NemoModel.applied (o : NemoModel) (c : DecodingConfig) : NemoModel :=
  { o with cfg := c, decoding := c }

def NemoModel.confident (o : NemoModel) (succeeds : Bool) : NemoModel :=
  { (if succeeds then o.applied o.cfg.withConfidence else o) with confidence := true }

/-- The boosting fails as well when the configuration has no boosting tree. -/
def NemoModel.boosted (o : NemoModel) (terms : List String) (succeeds : Bool) : NemoModel :=
  if succeeds && o.cfg.boostingTree.isSome then o.applied (o.cfg.boost terms) else o

/-- The reset writes to the live configuration first. -/
def NemoModel.unboosted (o : NemoModel) (succeeds : Bool) : NemoModel :=
  if succeeds then o.applied o.cfg.reset else { o with cfg := o.cfg.reset }

instance : Interprets Effect Core where
  apply
    | .acquire m maxLoaded loads, s => (s.acquire m maxLoaded loads).1
    | .release m, s => s.release m
    | .read, s => s
    | .enableAttention obj, s => s.change obj fun o => { o with attention := true }
    | .markAttention m, s => { s with localAttentionApplied := m :: s.localAttentionApplied }
    | .markConfidence m, s => { s with confidenceApplied := m :: s.confidenceApplied }
    | .applyConfidence obj succeeds, s => s.change obj (·.confident succeeds)
    | .probe m obj, s => { s with boostingSupport := s.boostingSupport.set m (s.supports m obj) }
    | .configure obj terms succeeds, s => s.change obj (·.boosted terms succeeds)
    | .begin inference, s => { s with inferring := inference :: s.inferring }
    | .finish inference, s => { s with inferring := s.inferring.erase inference }
    | .reset obj succeeds, s => s.change obj (·.unboosted succeeds)
    | .evictExpired ttlSeconds, s => { s with models := s.models.eraseAll (s.expired ttlSeconds) }
    | .tick, s => { s with now := s.now + 1 }

abbrev Work := Program Effect Core

/-- A batch task, with how the calls outside the process go for it. -/
structure Task where
  loadedModelId : Option String
  vocabulary : List String
  loads : Bool
  confides : Bool
  /-- The vocabulary file is written. -/
  writes : Bool
  configures : Bool
  transcribes : Bool
  /-- The vocabulary file is deleted. -/
  unlinks : Bool
  resets : Bool

/-- Strip what comes before the first slash. -/
def normalizeModelId (loadedModelId : String) : String :=
  if '/' ∈ loadedModelId.toList then
    String.ofList ((loadedModelId.toList.dropWhile (· ≠ '/')).drop 1)
  else loadedModelId

def Task.modelId (config : Config) (r : Task) : String :=
  normalizeModelId
    (match r.loadedModelId with
    | none | some "" => config.defaultModelId
    | some m => m)

inductive Reply
  /-- The model was not acquired. -/
  | failed
  /-- The configuration in force when the object was acquired and when it was released, and
  whether the inference succeeded. -/
  | ended (before after : DecodingConfig) (transcribed : Bool)

section Code

variable (config : Config)

def ensureLocalAttention (m : String) (obj : Nat) : Work Unit := do
  let s ← Program.perform .read
  if m ∈ s.localAttentionApplied then return ()
  else
    let _ ← Program.perform (.enableAttention obj)
    let _ ← Program.perform (.markAttention m)
    return ()

/-- The id is marked before the configuration is applied. -/
def ensureConfidence (r : Task) (m : String) (obj : Nat) : Work Unit :=
  if config.confidence then do
    let s ← Program.perform .read
    if m ∈ s.confidenceApplied then return ()
    else
      let _ ← Program.perform (.markConfidence m)
      let _ ← Program.perform (.applyConfidence obj r.confides)
      return ()
  else return ()

/-- `_configure_vocabulary_boosting` for a model that supports it: whether there is a
vocabulary file afterwards. -/
def configureVocabularyBoosting (r : Task) (obj : Nat) : Work Bool :=
  if r.writes then do
    let s ← Program.perform (.configure obj (config.expandedTerms r.vocabulary) r.configures)
    return r.configures && (s.objects obj).cfg.boostingTree.isSome
  else return false

def configureVocabulary (r : Task) (m : String) (obj : Nat) : Work Bool :=
  if r.vocabulary = [] then return false
  else do
    let s ← Program.perform (.probe m obj)
    if s.supports m obj then configureVocabularyBoosting config r obj
    else return false

/-- The end of a task with a vocabulary file; the reset is skipped when the deletion fails. -/
def cleanUp (r : Task) (obj : Nat) : Bool → Work Unit
  | false => return ()
  | true =>
      if r.unlinks then do
        let _ ← Program.perform (.reset obj r.resets)
        return ()
      else return ()

def letGo (m : String) (transcribed : Bool) (before : DecodingConfig) (obj : Nat) :
    Work Reply := do
  let s ← Program.perform (.release m)
  return .ended before (s.objects obj).decoding transcribed

def inferAndRelease (r : Task) (m : String) (obj : Nat) (before : DecodingConfig)
    (vocabularyEnabled : Bool) : Work Reply := do
  let _ ← Program.perform (.begin ⟨obj, m, r.vocabulary, true⟩)
  let _ ← Program.perform (.finish ⟨obj, m, r.vocabulary, true⟩)
  cleanUp r obj vocabularyEnabled
  letGo m r.transcribes before obj

/-- A task that holds its object. -/
def heldTask (r : Task) (m : String) (obj : Nat) (before : DecodingConfig) : Work Reply := do
  ensureLocalAttention m obj
  ensureConfidence config r m obj
  let vocabularyEnabled ← configureVocabulary config r m obj
  inferAndRelease r m obj before vocabularyEnabled

/-- What a load of the model gives. -/
def loaded (m : String) (loads : Bool) : Option DecodingConfig :=
  if loads then some (config.fresh m) else none

/-- Acquire a model's object and go on with it. -/
def holding (m : String) (loads : Bool) (rest : DecodingConfig → Nat → Work Reply) :
    Work Reply := do
  let s ← Program.perform (.acquire m config.maxLoaded (loaded config m loads))
  match s.acquire m config.maxLoaded (loaded config m loads) with
  | (_, none) => return .failed
  | (s', some obj) => rest (s'.objects obj).decoding obj

/-- `transcribe_audio`. -/
def transcribeAudio (r : Task) : Work Reply :=
  holding config (r.modelId config) r.loads fun before obj =>
    heldTask config r (r.modelId config) obj before

def hear (m : String) (transcribes : Bool) (before : DecodingConfig) (obj : Nat) :
    Work Reply := do
  let _ ← Program.perform (.begin ⟨obj, m, [], false⟩)
  let _ ← Program.perform (.finish ⟨obj, m, [], false⟩)
  letGo m transcribes before obj

/-- `NemoInference.transcribe`, and the streaming decode, which holds its object alike. -/
def transcribe (m : String) (loads transcribes : Bool) : Work Reply :=
  holding config m loads (hear m transcribes)

/-- The manager's preload. -/
def preload (m : String) (loads : Bool) : Work Reply :=
  holding config m loads (letGo m false)

end Code

inductive Call
  | task (r : Task)
  | utterance (m : String) (loads transcribes : Bool)
  | preload (m : String) (loads : Bool)

namespace Call

def modelId (config : Config) : Call → String
  | task r => r.modelId config
  | utterance m _ _ | preload m _ => m

def vocabulary : Call → List String
  | task r => r.vocabulary
  | utterance _ _ _ | preload _ _ => []

def batch : Call → Bool
  | task _ => true
  | utterance _ _ _ | preload _ _ => false

def code (config : Config) : Call → Work Reply
  | task r => transcribeAudio config r
  | utterance m loads transcribes => transcribe config m loads transcribes
  | preload m loads => Nemo.preload config m loads

end Call

abbrev NemoPool := Pool Call Effect Core Reply

/-- Calls come in any order, the eviction thread runs at any time, and no call is given up. -/
def AnyOrder (config : Config) (_ : NemoPool) : Turn Call Effect → Prop
  | .start _ | .move _ | .outside .tick => True
  | .outside (.evictExpired ttlSeconds) => ttlSeconds = config.ttlSeconds
  | .fail _ | .outside _ => False

/-- A process that has loaded nothing. -/
def Core.started : Core where
  now := 0
  models := []
  objects _ := ⟨"", false, false, ⟨"", false, none, 0⟩, ⟨"", false, none, 0⟩⟩
  created := 0
  localAttentionApplied := []
  boostingSupport := []
  confidenceApplied := []
  inferring := []

end Dalston.Engines.Nemo
