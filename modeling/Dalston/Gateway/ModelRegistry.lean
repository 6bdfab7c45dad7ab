import Dalston.Foundation.Pool
import Dalston.Model.Rows

/-!
# The model registry

A row of the `models` table says whether the files of a model are in the object
store. A pull downloads a snapshot of the model's repository and uploads it file
by file, with a marker at the end. A removal deletes the files in batches, and a
sync compares the rows with the markers. Each is a program of single statements
and single requests, and any number of them run side by side.

## Implementation notes

A statement and its commit are one effect, and so is the paginated listing of a
prefix. A sync commits once, so the rows it updates are written by its last
effect. A request that fails has no effect; whether requests fail is part of the
store and changes from outside, as do the repositories and the jobs. The columns
of the progress display that no program here reads are left out.
-/

namespace Dalston.Gateway.Models

open Foundation Model

/-- The contents of a file or an object. -/
abbrev Body := List UInt8

/-- The directory that `snapshot_download` leaves: relative paths and contents. -/
structure Snapshot where
  files : Dict Body
  distinct : (files.map (·.1)).Nodup

namespace Snapshot

def sizeBytes (snapshot : Snapshot) : Nat := (snapshot.files.map (·.2.length)).sum

end Snapshot

inductive DownloadStatus
  | notDownloaded | downloading | ready | failed
  deriving DecidableEq

/-- A row of the `models` table. -/
structure ModelRegistryModel where
  loadedModelId : String
  source : Option String
  status : DownloadStatus
  downloadPath : Option String
  sizeBytes : Option Nat
  expectedTotalBytes : Option Nat
  downloadedBytes : Option Nat
  downloadedAt : Option Time
  modelMetadata : Config

/-- `model.source or model.loaded_model_id`. -/
def ModelRegistryModel.hfRepoId (model : ModelRegistryModel) : String :=
  match model.source with
  | none | some "" => model.loadedModelId
  | some source => source

/-- What a sync has found out about a model. -/
inductive SyncUpdate
  | present (modelId : String) (uri : String) (sizeBytes : Option Nat)
  | missing (modelId : String)

/-- The database, the bucket and the outside world. -/
structure RegistryStore where
  now : Time
  models : Dict ModelRegistryModel
  jobs : List JobModel
  /-- The objects of the bucket by key. -/
  objects : Dict Body
  /-- What downloading a repository yields. -/
  hub : String → Except String Snapshot
  /-- The total size the hub announces for a repository. -/
  hubSize : String → Option Nat
  /-- The error every request to the object store raises, if they do. -/
  s3Error : Option String

def completeMarker : String := ".complete"

/-- The key prefix of a model's files. -/
def modelPrefix (modelId : String) : String := "models/" ++ modelId ++ "/"

def objectKey (modelId relative : String) : String := modelPrefix modelId ++ relative

/-- The key starts with the model's prefix. -/
def under (modelId key : String) : Bool := (modelPrefix modelId).toList.isPrefixOf key.toList

def s3Uri (bucket modelId : String) : String := "s3://" ++ bucket ++ "/" ++ modelPrefix modelId

/-- The keys with a prefix, as a listing returns them. -/
def RegistryStore.listing (s : RegistryStore) (modelId : String) : List String :=
  ((s.objects.map (·.1)).filter (under modelId)).insertionSort (· ≤ ·)

theorem under_of_mem_listing {s : RegistryStore} {m key : String} (h : key ∈ s.listing m) :
    under m key = true := by
  rw [RegistryStore.listing, List.mem_insertionSort] at h
  exact (List.mem_filter.mp h).2

/-- One of the two prefixes extends the other. -/
def overlaps (m m' : String) : Bool :=
  (modelPrefix m).toList.isPrefixOf (modelPrefix m').toList ||
    (modelPrefix m').toList.isPrefixOf (modelPrefix m).toList

theorem overlaps_of_under {m m' key : String} (h : under m key = true)
    (h' : under m' key = true) : overlaps m m' = true := by
  simp only [under, overlaps, List.isPrefixOf_iff_prefix, Bool.or_eq_true] at h h' ⊢
  exact List.prefix_or_prefix_of_prefix h h'

/-- `ACTIVE_MODEL_SELECTOR_KEYS`. -/
def activeModelSelectorKeys : List String :=
  ["model_transcribe", "model_diarize", "model_align", "model_pii_detect"]

/-- One of the job's model selectors is the model. -/
def names (modelId : String) (job : JobModel) : Bool :=
  activeModelSelectorKeys.any fun key => (job.parameters.get? key).any (·.equalsText modelId)

/-- The text of a job status as the database has it. -/
def statusText : JobStatus → String
  | .pending => "pending"
  | .running => "running"
  | .completed => "completed"
  | .failed => "failed"
  | .cancelling => "cancelling"
  | .cancelled => "cancelled"

/-- `_check_model_in_use`. -/
def checkModelInUse (jobs : List JobModel) (modelId : String) : Nat :=
  jobs.countP fun job =>
    ["pending", "processing"].contains (statusText job.status) && names modelId job

inductive Request
  | selectModel (modelId : String)
  | selectModels
  | countJobs (modelId : String)
  | setDownloading (modelId : String)
  | updateDownloadProgress (modelId : String) (expected : Option Nat)
  | setReady (modelId uri : String) (sizeBytes : Nat)
  | setFailed (modelId error : String)
  | resetModel (modelId : String)
  | deleteModel (modelId : String)
  | setModelStatus (modelId : String) (status : DownloadStatus)
  | commitSync (updates : List SyncUpdate)
  | getModelTotalSizeBytes (repo : String)
  /-- The model the snapshot is for is not part of the request. -/
  | snapshotDownload (modelId repo : String)
  | uploadFile (modelId relative : String) (body : Body)
  | putMarker (modelId : String)
  | headMarker (modelId : String)
  | listObjects (modelId : String)
  | deleteObjects (modelId : String) (keys : List String)
  /-- A model that the registry does not have is registered. -/
  | modelRegistered (modelId : String) (model : ModelRegistryModel)
  | jobInserted (job : JobModel)
  | jobStatusWritten (jobId : Uuid) (status : JobStatus)
  | jobDeleted (jobId : Uuid)
  | hubChanges (hub : String → Except String Snapshot) (hubSize : String → Option Nat)
  | s3Changes (error : Option String)
  | timePasses

/-- `UPDATE models SET ... WHERE id = ...`. -/
def updateModel (models : Dict ModelRegistryModel) (modelId : String)
    (values : ModelRegistryModel → ModelRegistryModel) : Dict ModelRegistryModel :=
  match models.get? modelId with
  | none => models
  | some model => models.set modelId (values model)

def SyncUpdate.apply (models : Dict ModelRegistryModel) : SyncUpdate → Dict ModelRegistryModel
  | .present modelId uri sizeBytes =>
      updateModel models modelId fun model =>
        { model with status := .ready, downloadPath := some uri, sizeBytes }
  | .missing modelId =>
      updateModel models modelId fun model =>
        { model with status := .notDownloaded, downloadPath := none, sizeBytes := none }

/-- The values `set_model_status` writes. -/
def statusValues (status : DownloadStatus) (model : ModelRegistryModel) : ModelRegistryModel :=
  match status with
  | .notDownloaded =>
      { model with
          status, downloadedBytes := none, expectedTotalBytes := none, downloadPath := none
          sizeBytes := none, downloadedAt := none }
  | .downloading => { model with status, downloadedBytes := some 0, expectedTotalBytes := none }
  | .ready | .failed => { model with status }

/-- A change of the bucket, unless requests fail. -/
def RegistryStore.onObjects (s : RegistryStore) (f : Dict Body → Dict Body) : RegistryStore :=
  match s.s3Error with
  | none => { s with objects := f s.objects }
  | some _ => s

@[simp] theorem RegistryStore.onObjects_jobs (s : RegistryStore) (f : Dict Body → Dict Body) :
    (s.onObjects f).jobs = s.jobs := by
  unfold onObjects
  split <;> rfl

@[simp] theorem RegistryStore.onObjects_models (s : RegistryStore) (f : Dict Body → Dict Body) :
    (s.onObjects f).models = s.models := by
  unfold onObjects
  split <;> rfl

def Request.apply (r : Request) (s : RegistryStore) : RegistryStore :=
  match r with
  | .setDownloading m =>
      { s with
          models := updateModel s.models m fun model =>
            { model with
                status := .downloading, downloadedBytes := some 0, expectedTotalBytes := none } }
  | .updateDownloadProgress m expected =>
      { s with
          models := updateModel s.models m fun model =>
            { model with downloadedBytes := some 0, expectedTotalBytes := expected } }
  | .setReady m uri size =>
      { s with
          models := updateModel s.models m fun model =>
            { model with
                status := .ready, downloadPath := some uri, sizeBytes := some size
                expectedTotalBytes := some size, downloadedBytes := some size
                downloadedAt := some s.now } }
  | .setFailed m error =>
      { s with
          models := updateModel s.models m fun model =>
            { model with status := .failed, modelMetadata := [("error", .str error)] } }
  | .resetModel m =>
      { s with
          models := updateModel s.models m fun model =>
            { model with
                status := .notDownloaded, downloadPath := none, sizeBytes := none
                downloadedAt := none } }
  | .deleteModel m => { s with models := s.models.erase m }
  | .setModelStatus m status => { s with models := updateModel s.models m (statusValues status) }
  | .commitSync updates => { s with models := updates.foldl SyncUpdate.apply s.models }
  | .uploadFile m relative body =>
      s.onObjects fun objects => objects.set (objectKey m relative) body
  | .putMarker m => s.onObjects fun objects => objects.set (objectKey m completeMarker) []
  | .deleteObjects _ keys => s.onObjects fun objects => Dict.eraseAll objects keys
  | .modelRegistered m model =>
      if s.models.contains m then s else { s with models := s.models.set m model }
  | .jobInserted job => { s with jobs := s.jobs ++ [job] }
  | .jobStatusWritten id status =>
      { s with jobs := s.jobs.map fun job => if job.id = id then { job with status } else job }
  | .jobDeleted id => { s with jobs := s.jobs.filter fun job => job.id ≠ id }
  | .hubChanges hub hubSize => { s with hub, hubSize }
  | .s3Changes error => { s with s3Error := error }
  | .timePasses => { s with now := s.now + 1 }
  | .selectModel _ | .selectModels | .countJobs _ | .getModelTotalSizeBytes _
  | .snapshotDownload _ _ | .headMarker _ | .listObjects _ => s

instance : Interprets Request RegistryStore := ⟨Request.apply⟩

abbrev Op (A : Type) := Program Request RegistryStore A

def exec (r : Request) : Op Unit := do
  let _ ← Program.perform r
  return ()

/-- What happens outside the registry's calls. -/
def Request.fromOutside : Request → Bool
  | .modelRegistered _ model => model.status ≠ .ready
  | .jobInserted _ | .jobStatusWritten _ _ | .jobDeleted _ | .hubChanges _ _ | .s3Changes _
  | .timePasses => true
  | _ => false

theorem follows_exec {L A : Type} {R : L → RegistryStore → Request → L → Prop}
    {J : RegistryStore → Prop} {Q : A → L → Prop} {l : L} {r : Request} {next : Op A} :
    (exec r >>= fun _ => next).Follows R J Q l ↔
      ∀ s, J s → ∃ l', R l s r l' ∧ next.Follows R J Q l' :=
  Iff.rfl

inductive Reply
  | pulled (model : Option ModelRegistryModel)
  | pullStarted (status : DownloadStatus)
  | pullFailed (error : String)
  | modelNotFound (modelId : String)
  | modelInUse (modelId : String) (jobCount : Nat)
  | removed
  | removalFailed (error : String)
  | synced (updated unchanged : Nat)
  | syncFailed (error : String)

section Pull

/-- Upload the files one after the other; the result is the error of the first that fails. -/
def uploadFiles (modelId : String) : Dict Body → Op (Option String)
  | [] => return none
  | (relative, body) :: files => do
      let before ← Program.perform (.uploadFile modelId relative body)
      if before.s3Error = none then uploadFiles modelId files else return before.s3Error

/-- Put the marker once every file is uploaded. -/
def finishUpload (modelId : String) : Option String → Op (Option String)
  | some error => return some error
  | none => do
      let before ← Program.perform (.putMarker modelId)
      return before.s3Error

/-- `_upload_model_to_s3`. -/
def uploadModelToS3 (modelId : String) (snapshot : Snapshot) : Op (Option String) :=
  uploadFiles modelId snapshot.files >>= finishUpload modelId

def pullFailure (modelId error : String) : Op Reply := do
  exec (.setFailed modelId error)
  return .pullFailed error

/-- Update the registry with success, then refresh and return. -/
def pullSuccess (bucket modelId : String) (sizeBytes : Nat) : Op Reply := do
  exec (.setReady modelId (s3Uri bucket modelId) sizeBytes)
  let db ← Program.perform (.selectModel modelId)
  return .pulled (db.models.get? modelId)

def pullUploaded (bucket modelId : String) (snapshot : Snapshot) : Option String → Op Reply
  | some error => pullFailure modelId error
  | none => pullSuccess bucket modelId snapshot.sizeBytes

def pullDownloaded (bucket modelId : String) : Except String Snapshot → Op Reply
  | .error error => pullFailure modelId error
  | .ok snapshot => uploadModelToS3 modelId snapshot >>= pullUploaded bucket modelId snapshot

/-- Download the repository, upload it and update the registry. -/
def download (bucket modelId repo : String) : Op Reply := do
  let before ← Program.perform (.getModelTotalSizeBytes repo)
  exec (.updateDownloadProgress modelId (before.hubSize repo))
  let before ← Program.perform (.snapshotDownload modelId repo)
  pullDownloaded bucket modelId (before.hub repo)

def pullFound (bucket modelId : String) (force : Bool) : Option ModelRegistryModel → Op Reply
  | none => return .modelNotFound modelId
  | some model =>
      if model.status = .ready ∧ ¬ force then return .pulled (some model)
      else if model.status = .downloading then download bucket modelId model.hfRepoId
      else do
        exec (.setDownloading modelId)
        download bucket modelId model.hfRepoId

/-- `pull_model`. -/
def pullModel (bucket modelId : String) (force : Bool) : Op Reply := do
  let db ← Program.perform (.selectModel modelId)
  pullFound bucket modelId force (db.models.get? modelId)

def startPullFound (modelId : String) (force : Bool) : Option ModelRegistryModel → Op Reply
  | none => return .modelNotFound modelId
  | some model =>
      if model.status = .ready ∧ ¬ force then return .pullStarted .ready
      else if model.status = .downloading then
        if force then do
          exec (.setModelStatus modelId .notDownloaded)
          exec (.setModelStatus modelId .downloading)
          return .pullStarted .downloading
        else return .pullStarted .downloading
      else do
        exec (.setModelStatus modelId .downloading)
        return .pullStarted .downloading

/-- The endpoint that marks a model as downloading before its pull starts in the background. -/
def startPull (modelId : String) (force : Bool) : Op Reply := do
  let db ← Program.perform (.selectModel modelId)
  startPullFound modelId force (db.models.get? modelId)

end Pull

section Remove

/-- The most keys one request deletes. -/
def deleteBatchSize : Nat := 1000

def batches : Nat → List String → List (List String)
  | 0, _ => []
  | _ + 1, [] => []
  | n + 1, keys => keys.take deleteBatchSize :: batches n (keys.drop deleteBatchSize)

/-- The batches are the keys, in order. -/
theorem flatten_batches {n : Nat} {keys : List String} (h : keys.length ≤ n) :
    (batches n keys).flatten = keys := by
  induction n generalizing keys with
  | zero => simp [batches, List.eq_nil_of_length_eq_zero (Nat.le_zero.mp h)]
  | succ n ih =>
      cases keys with
      | nil => simp [batches]
      | cons key keys =>
          have hrest : ((key :: keys).drop deleteBatchSize).length ≤ n := by
            simp only [List.length_drop, List.length_cons, deleteBatchSize] at h ⊢
            omega
          rw [batches, List.flatten_cons, ih hrest, List.take_append_drop]
          simp

/-- Delete the batches one after the other; the result is the error of the first that fails. -/
def deleteBatches (modelId : String) : List (List String) → Op (Option String)
  | [] => return none
  | keys :: rest => do
      let before ← Program.perform (.deleteObjects modelId keys)
      if before.s3Error = none then deleteBatches modelId rest else return before.s3Error

def deleteListed (modelId : String) (keys : List String) : Option String → Op (Option String)
  | some error => return some error
  | none => deleteBatches modelId (batches keys.length keys)

/-- `_delete_model_from_s3`. -/
def deleteModelFromS3 (modelId : String) : Op (Option String) := do
  let before ← Program.perform (.listObjects modelId)
  deleteListed modelId (before.listing modelId) before.s3Error

/-- Delete the row, or reset it. -/
def removeRow (modelId : String) (purge : Bool) : Op Reply := do
  exec (if purge then .deleteModel modelId else .resetModel modelId)
  return .removed

def removeDeleted (modelId : String) (purge : Bool) : Option String → Op Reply
  | some error => return .removalFailed error
  | none => removeRow modelId purge

/-- The download path says that files are in the object store. -/
def inObjectStore (model : ModelRegistryModel) : Bool :=
  model.downloadPath.any fun path => "s3://".toList.isPrefixOf path.toList

def removeUnused (modelId : String) (purge : Bool) (model : ModelRegistryModel) : Op Reply :=
  if inObjectStore model then deleteModelFromS3 modelId >>= removeDeleted modelId purge
  else removeRow modelId purge

def removeFound (modelId : String) (purge : Bool) : Option ModelRegistryModel → Op Reply
  | none => return .modelNotFound modelId
  | some model => do
      let db ← Program.perform (.countJobs modelId)
      if 0 < checkModelInUse db.jobs modelId then
        return .modelInUse modelId (checkModelInUse db.jobs modelId)
      else removeUnused modelId purge model

/-- `remove_model`. -/
def removeModel (modelId : String) (purge : Bool) : Op Reply := do
  let db ← Program.perform (.selectModel modelId)
  removeFound modelId purge (db.models.get? modelId)

end Remove

section Sync

/-- `_is_model_in_s3` on what the request finds: an error counts as absence. -/
def RegistryStore.isModelInS3 (s : RegistryStore) (modelId : String) : Bool :=
  s.s3Error.isNone && s.objects.contains (objectKey modelId completeMarker)

/-- `_get_model_size_in_s3` on what the listing finds. -/
def RegistryStore.modelSizeInS3 (s : RegistryStore) (modelId : String) : Option Nat :=
  let listed := s.objects.filter fun kv =>
    under modelId kv.1 && !completeMarker.toList.isSuffixOf kv.1.toList
  let totalSize := (listed.map (·.2.length)).sum
  if 0 < totalSize then some totalSize else none

/-- The outcome of a sync's pass through the models. -/
structure SyncPass where
  updates : List SyncUpdate
  unchanged : Nat

/-- Compare the models one after the other; the result is the error of the first that fails. -/
def syncModels (bucket : String) (acc : SyncPass) :
    Dict ModelRegistryModel → Op (Except String SyncPass)
  | [] => return .ok acc
  | (modelId, model) :: rest => do
      let before ← Program.perform (.headMarker modelId)
      if before.isModelInS3 modelId ∧ model.status ≠ .ready then do
        let before ← Program.perform (.listObjects modelId)
        match before.s3Error with
        | some error => return .error error
        | none =>
            syncModels bucket
              { acc with
                  updates := acc.updates ++
                    [.present modelId (s3Uri bucket modelId) (before.modelSizeInS3 modelId)] } rest
      else if ¬ before.isModelInS3 modelId ∧ model.status = .ready then
        syncModels bucket { acc with updates := acc.updates ++ [.missing modelId] } rest
      else syncModels bucket { acc with unchanged := acc.unchanged + 1 } rest

def commitSync : Except String SyncPass → Op Reply
  | .error error => return .syncFailed error
  | .ok pass => do
      exec (.commitSync pass.updates)
      return .synced pass.updates.length pass.unchanged

/-- `sync_from_s3`. -/
def syncFromS3 (bucket : String) : Op Reply := do
  let db ← Program.perform .selectModels
  syncModels bucket ⟨[], 0⟩ (db.models.insertionSort fun m m' => m.1 ≤ m'.1) >>= commitSync

end Sync

inductive Call
  | startPull (modelId : String) (force : Bool)
  | pull (modelId : String) (force : Bool)
  | remove (modelId : String) (purge : Bool)
  | sync

/-- The code of a call; the bucket is a setting. -/
def Call.code (bucket : String) : Call → Op Reply
  | .startPull m force => Models.startPull m force
  | .pull m force => pullModel bucket m force
  | .remove m purge => removeModel m purge
  | .sync => syncFromS3 bucket

section Performs

/-- The requests a call performs. -/
def Call.performs : Call → Request → Prop
  | .startPull m _, .selectModel m' => m' = m
  | .startPull m _, .setModelStatus m' status => m' = m ∧ status ≠ .ready
  | .pull m _, .selectModel m' | .pull m _, .setDownloading m'
  | .pull m _, .updateDownloadProgress m' _ | .pull m _, .snapshotDownload m' _
  | .pull m _, .uploadFile m' _ _ | .pull m _, .putMarker m' | .pull m _, .setReady m' _ _
  | .pull m _, .setFailed m' _ => m' = m
  | .pull _ _, .getModelTotalSizeBytes _ => True
  | .remove m _, .selectModel m' | .remove m _, .countJobs m' | .remove m _, .listObjects m'
  | .remove m _, .deleteObjects m' _ | .remove m _, .resetModel m'
  | .remove m _, .deleteModel m' => m' = m
  | .sync, .selectModels | .sync, .headMarker _ | .sync, .listObjects _
  | .sync, .commitSync _ => True
  | _, _ => False

/-- Every request of the program is one of the call's. -/
abbrev Within {A : Type} (c : Call) (p : Op A) : Prop := p.Only c.performs

variable {c : Call} {m : String} {force purge : Bool}

theorem within_done {A : Type} (a : A) : Within c (return a) := Program.only_done a

theorem within_exec {r : Request} (h : c.performs r) : Within c (exec r) :=
  Program.only_perform_bind h fun _ => within_done ()

theorem within_startPull (m : String) (force : Bool) :
    Within (.startPull m force) (startPull m force) := by
  refine Program.only_perform_bind rfl fun s => ?_
  show Within _ (startPullFound m force (s.models.get? m))
  have hstatus : ∀ status, status ≠ .ready →
      Within (.startPull m force) (exec (.setModelStatus m status)) :=
    fun status h => within_exec ⟨rfl, h⟩
  rcases s.models.get? m with _ | model
  · exact within_done _
  · rw [startPullFound]
    split_ifs
    · exact within_done _
    · refine Program.only_bind (hstatus _ (by decide)) fun _ => ?_
      exact Program.only_bind (hstatus _ (by decide)) fun _ => within_done _
    · exact within_done _
    · exact Program.only_bind (hstatus _ (by decide)) fun _ => within_done _

theorem within_uploadFiles (files : Dict Body) :
    Within (.pull m force) (uploadFiles m files) := by
  induction files with
  | nil => exact within_done _
  | cons file files ih =>
      refine Program.only_perform_bind rfl fun s => ?_
      split
      · exact ih
      · exact within_done _

theorem within_uploadModelToS3 (snapshot : Snapshot) :
    Within (.pull m force) (uploadModelToS3 m snapshot) := by
  refine Program.only_bind (within_uploadFiles _) fun outcome => ?_
  cases outcome with
  | none => exact Program.only_perform_bind rfl fun _ => within_done _
  | some error => exact within_done _

theorem within_pullFailure (error : String) : Within (.pull m force) (pullFailure m error) :=
  Program.only_bind (within_exec rfl) fun _ => within_done _

theorem within_pullSuccess (bucket : String) (size : Nat) :
    Within (.pull m force) (pullSuccess bucket m size) :=
  Program.only_bind (within_exec rfl) fun _ => Program.only_perform_bind rfl fun _ => within_done _

theorem within_download (bucket repo : String) :
    Within (.pull m force) (download bucket m repo) := by
  refine Program.only_perform_bind trivial fun s => Program.only_bind (within_exec rfl) fun _ => ?_
  refine Program.only_perform_bind rfl fun s' => ?_
  show Within _ (pullDownloaded bucket m (s'.hub repo))
  rcases s'.hub repo with error | snapshot
  · exact within_pullFailure error
  · refine Program.only_bind (within_uploadModelToS3 snapshot) fun outcome => ?_
    cases outcome with
    | none => exact within_pullSuccess bucket _
    | some error => exact within_pullFailure error

theorem within_pullModel (bucket m : String) (force : Bool) :
    Within (.pull m force) (pullModel bucket m force) := by
  refine Program.only_perform_bind rfl fun s => ?_
  show Within _ (pullFound bucket m force (s.models.get? m))
  rcases s.models.get? m with _ | model
  · exact within_done _
  · rw [pullFound]
    split_ifs
    · exact within_done _
    · exact within_download bucket _
    · exact Program.only_bind (within_exec rfl) fun _ => within_download bucket _

theorem within_deleteBatches (bs : List (List String)) :
    Within (.remove m purge) (deleteBatches m bs) := by
  induction bs with
  | nil => exact within_done _
  | cons keys rest ih =>
      refine Program.only_perform_bind rfl fun s => ?_
      split
      · exact ih
      · exact within_done _

theorem within_removeRow : Within (.remove m purge) (removeRow m purge) := by
  refine Program.only_bind (within_exec ?_) fun _ => within_done _
  cases purge <;> rfl

theorem within_deleteModelFromS3 : Within (.remove m purge) (deleteModelFromS3 m) := by
  refine Program.only_perform_bind rfl fun s => ?_
  rcases s.s3Error with _ | error
  · exact within_deleteBatches _
  · exact within_done _

theorem within_removeUnused (model : ModelRegistryModel) :
    Within (.remove m purge) (removeUnused m purge model) := by
  rw [removeUnused]
  split_ifs
  · refine Program.only_bind within_deleteModelFromS3 fun outcome => ?_
    cases outcome with
    | none => exact within_removeRow
    | some error => exact within_done _
  · exact within_removeRow

theorem within_removeModel (m : String) (purge : Bool) :
    Within (.remove m purge) (removeModel m purge) := by
  refine Program.only_perform_bind rfl fun s => ?_
  show Within _ (removeFound m purge (s.models.get? m))
  rcases s.models.get? m with _ | model
  · exact within_done _
  · refine Program.only_perform_bind rfl fun s' => ?_
    split_ifs
    · exact within_done _
    · exact within_removeUnused model

theorem within_syncModels (bucket : String) (acc : SyncPass) (models : Dict ModelRegistryModel) :
    Within .sync (syncModels bucket acc models) := by
  induction models generalizing acc with
  | nil => exact within_done _
  | cons entry rest ih =>
      obtain ⟨m, model⟩ := entry
      refine Program.only_perform_bind trivial fun s => ?_
      split_ifs
      · refine Program.only_perform_bind trivial fun s' => ?_
        rcases s'.s3Error with _ | error
        · exact ih _
        · exact within_done _
      · exact ih _
      · exact ih _

theorem within_syncFromS3 (bucket : String) : Within .sync (syncFromS3 bucket) := by
  refine Program.only_perform_bind trivial fun s => ?_
  refine Program.only_bind (within_syncModels bucket _ _) fun outcome => ?_
  cases outcome with
  | error error => exact within_done _
  | ok pass => exact Program.only_bind (within_exec trivial) fun _ => within_done _

/-- Every request of a call is one of its own. -/
theorem within_code (bucket : String) (c : Call) : Within c (c.code bucket) := by
  cases c with
  | startPull m force => exact within_startPull m force
  | pull m force => exact within_pullModel bucket m force
  | remove m purge => exact within_removeModel m purge
  | sync => exact within_syncFromS3 bucket

end Performs

abbrev RegistryThread := Thread Call Request RegistryStore Reply

abbrev RegistryPool := Pool Call Request RegistryStore Reply

end Dalston.Gateway.Models
