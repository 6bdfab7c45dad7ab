import Dalston.Gateway.ModelRegistry

/-!
# The registry against the object store

A model is shown as ready when a pull has uploaded a snapshot and its marker, or
when a sync finds the marker. A pull writes over the objects it finds, and a
forced one leaves the marker of the snapshot before it in place; a removal
deletes the objects before it resets the row; a sync writes what it has found
some time ago. Where every pull finds a prefix that has nothing but files of its
snapshot, and no call on the model gets in the way of another, a ready model has
exactly the files of one snapshot, and its marker.

## Implementation notes

Everything is stated for one model. The calls on other models matter only through
their prefixes, so these must not overlap. Which snapshots there are is a
parameter: the hub may serve any of them at any time.
-/

namespace Dalston.Gateway.Models

open Foundation Model

section Agreement

variable (m : String)

/-- The registry shows the model as ready. -/
def shownReady (s : RegistryStore) : Bool :=
  (s.models.get? m).any fun model => model.status = .ready

def marked (s : RegistryStore) : Bool := s.objects.contains (objectKey m completeMarker)

/-- Every object under the prefix, the marker apart, is one of the files. -/
def HoldsOnly (s : RegistryStore) (files : Dict Body) : Prop :=
  ∀ key body, s.objects.get? key = some body → under m key = true →
    key ≠ objectKey m completeMarker →
      ∃ relative, key = objectKey m relative ∧ (relative, body) ∈ files

/-- The files are there. -/
def HoldsAll (s : RegistryStore) (files : Dict Body) : Prop :=
  ∀ file ∈ files, s.objects.get? (objectKey m file.1) = some file.2

/-- The prefix holds exactly the files of the snapshot and the marker. -/
structure Complete (s : RegistryStore) (snapshot : Snapshot) : Prop where
  only : HoldsOnly m s snapshot.files
  all : HoldsAll m s snapshot.files
  marker : s.objects.get? (objectKey m completeMarker) = some []

variable (published : Snapshot → Prop)

/-- A ready model is complete, and the files of two snapshots are never side by side. -/
structure Agrees (s : RegistryStore) : Prop where
  ready : shownReady m s = true → ∃ snapshot, published snapshot ∧ Complete m s snapshot
  oneSnapshot : HoldsOnly m s [] ∨ ∃ snapshot, published snapshot ∧ HoldsOnly m s snapshot.files

/-- The hub serves published snapshots. -/
def Serves (hub : String → Except String Snapshot) : Prop :=
  ∀ repo snapshot, hub repo = .ok snapshot → published snapshot

/-- The registry and the bucket agree, also about what a sync would find. -/
structure Consistent (s : RegistryStore) : Prop where
  served : Serves published s.hub
  marker : marked m s = true → ∃ snapshot, published snapshot ∧ Complete m s snapshot
  ready : shownReady m s = true → marked m s = true
  oneSnapshot : HoldsOnly m s [] ∨ ∃ snapshot, published snapshot ∧ HoldsOnly m s snapshot.files

theorem Consistent.agrees {s : RegistryStore} (h : Consistent m published s) :
    Agrees m published s where
  ready hready := h.marker (h.ready hready)
  oneSnapshot := h.oneSnapshot

end Agreement

section Conditions

variable (m : String) (published : Snapshot → Prop)

def Call.pulls : Call → Bool
  | .pull id _ => id = m
  | _ => false

/-- Between the snapshot and the row. -/
def Request.stores : Request → Bool
  | .uploadFile _ _ _ | .putMarker _ | .setReady _ _ _ => true
  | _ => false

/-- Between the row that says so and the one that gives the outcome. -/
def Request.downloads : Request → Bool
  | .getModelTotalSizeBytes _ | .updateDownloadProgress _ _ | .snapshotDownload _ _
  | .setFailed _ _ => true
  | r => r.stores

/-- A pull of the model that is uploading its snapshot. -/
def storing (t : RegistryThread) : Bool := t.call.pulls m && t.rest.next?.any Request.stores

/-- A pull of the model that has not written its outcome yet. -/
def downloading (t : RegistryThread) : Bool := t.call.pulls m && t.rest.next?.any Request.downloads

/-- Only the hub, the object store and other tables change from outside. -/
def Outside : Request → Prop
  | .hubChanges hub _ => Serves published hub
  | r => r.fromOutside = true

/-- Calls are made and given up in any way. -/
def AnyCalls (_ : RegistryPool) : Turn Call Request → Prop
  | .start _ | .move _ | .fail _ => True
  | .outside r => Outside published r

/-- The prefix holds nothing that is not part of the snapshot, and a marker only with all
of it. -/
structure Fresh (s : RegistryStore) (snapshot : Snapshot) : Prop where
  only : HoldsOnly m s snapshot.files
  marker : marked m s = true → Complete m s snapshot
  unnamed : ∀ file ∈ snapshot.files, file.1 ≠ completeMarker

/-- The request, of the call at a position, keeps the agreement of the model. -/
def Keeps (pool : RegistryPool) (i : Nat) : Request → Prop
  | .snapshotDownload id repo =>
      id = m → ∀ snapshot, pool.store.hub repo = .ok snapshot →
        Fresh m pool.store snapshot ∧ ∀ t ∈ pool.threads.eraseIdx i, storing m t = false
  | .setReady id _ _ => id = m → ∀ t ∈ pool.threads.eraseIdx i, downloading m t = false
  | .commitSync updates =>
      (∃ uri size, .present m uri size ∈ updates) →
        marked m pool.store = true ∧ ∀ t ∈ pool.threads.eraseIdx i, downloading m t = false
  | .deleteObjects id keys =>
      if id = m then
        shownReady m pool.store = false ∧
          (marked m pool.store = true → objectKey m completeMarker ∈ keys) ∧
          ∀ t ∈ pool.threads.eraseIdx i, storing m t = false
      else ∀ key ∈ keys, under m key = false
  | .uploadFile id _ _ | .putMarker id => id = m ∨ overlaps m id = false
  | _ => True

/-- Pulls of the model find its prefix fresh, removals find it not shown as ready, and no
call gets in the way of a pull. -/
def Orderly (pool : RegistryPool) : Turn Call Request → Prop
  | .start _ | .fail _ => True
  | .move i => ∀ r ∈ pool.next? i, Keeps m pool i r
  | .outside r => Outside published r

end Conditions

/-- Where a call stands with respect to the model. -/
inductive Stage
  | apart
  /-- The model is marked as downloading. -/
  | downloading
  /-- Some files of the snapshot are uploaded. -/
  | uploading (snapshot : Snapshot) (done : Dict Body)
  /-- The marker is uploaded as well. -/
  | stored

namespace Stage

def storing : Stage → Bool
  | uploading _ _ | stored => true
  | apart | downloading => false

end Stage

section Moves

variable (m : String)

/-- How a pull of the model moves. -/
inductive PullMove : Stage → RegistryStore → Request → Stage → Prop
  | select (s : RegistryStore) : PullMove .apart s (.selectModel m) .apart
  | resume (s : RegistryStore) (h : shownReady m s = false) :
      PullMove .apart s (.selectModel m) .downloading
  | start (s : RegistryStore) : PullMove .apart s (.setDownloading m) .downloading
  | size (s : RegistryStore) (repo : String) :
      PullMove .downloading s (.getModelTotalSizeBytes repo) .downloading
  | progress (s : RegistryStore) (expected : Option Nat) :
      PullMove .downloading s (.updateDownloadProgress m expected) .downloading
  | lost (s : RegistryStore) (repo : String) :
      PullMove .downloading s (.snapshotDownload m repo) .downloading
  | snapshot (s : RegistryStore) (repo : String) (v : Snapshot) (h : s.hub repo = .ok v) :
      PullMove .downloading s (.snapshotDownload m repo) (.uploading v [])
  | upload (s : RegistryStore) (v : Snapshot) (done : Dict Body) (file : String × Body)
      (h : file ∈ v.files) (hup : s.s3Error = none) :
      PullMove (.uploading v done) s (.uploadFile m file.1 file.2) (.uploading v (done ++ [file]))
  | uploadFails (s : RegistryStore) (v : Snapshot) (done : Dict Body) (file : String × Body)
      (hdown : s.s3Error ≠ none) :
      PullMove (.uploading v done) s (.uploadFile m file.1 file.2) .downloading
  | mark (s : RegistryStore) (v : Snapshot) (hup : s.s3Error = none) :
      PullMove (.uploading v v.files) s (.putMarker m) .stored
  | markFails (s : RegistryStore) (v : Snapshot) (hdown : s.s3Error ≠ none) :
      PullMove (.uploading v v.files) s (.putMarker m) .downloading
  | ready (s : RegistryStore) (uri : String) (size : Nat) :
      PullMove .stored s (.setReady m uri size) .apart
  | fail (s : RegistryStore) (error : String) :
      PullMove .downloading s (.setFailed m error) .apart

/-- The request is not one of a pull of the model that writes objects or makes it ready. -/
def Request.aside : Request → Bool
  | .uploadFile id _ _ | .putMarker id | .setReady id _ _ => id ≠ m
  | .setModelStatus _ status => status ≠ .ready
  | .modelRegistered _ _ => false
  | r => !r.fromOutside

def stageMove (c : Call) : Stage → RegistryStore → Request → Stage → Prop :=
  if c.pulls m = true then PullMove m else fun l _ r l' => r.aside m = true ∧ l' = l

/-- A pull returns when it has written its outcome. -/
def stageEnd (_ : Call) (_ : Reply) (l : Stage) : Prop := l = .apart

end Moves

section Frames

variable {m : String} {s s' : RegistryStore}

theorem get?_updateModel (models : Dict ModelRegistryModel) (id other : String)
    (values : ModelRegistryModel → ModelRegistryModel) :
    (updateModel models id values).get? other =
      if id = other then (models.get? other).map values else models.get? other := by
  unfold updateModel
  split
  next hnone =>
    split
    next heq => simp [← heq, hnone]
    next => rfl
  next model hsome =>
    rw [Dict.get?_set]
    split
    next heq => simp [← heq, hsome]
    next => rfl

theorem under_objectKey (m relative : String) : under m (objectKey m relative) = true := by
  simp [under, objectKey, String.toList_append]

theorem objectKey_inj {relative relative' : String}
    (h : objectKey m relative = objectKey m relative') : relative = relative' :=
  (String.append_right_inj _).mp h

/-- The objects of the model are what they were, and it is not shown as ready anew. -/
structure Frame (m : String) (s s' : RegistryStore) : Prop where
  objects : ∀ key, under m key = true → s'.objects.get? key = s.objects.get? key
  ready : shownReady m s' = true → shownReady m s = true

theorem HoldsOnly.congr {files : Dict Body} (h : HoldsOnly m s files)
    (hobjects : ∀ key, under m key = true → s'.objects.get? key = s.objects.get? key) :
    HoldsOnly m s' files := by
  intro key body hget hunder hne
  exact h key body (hobjects key hunder ▸ hget) hunder hne

theorem HoldsAll.congr {files : Dict Body} (h : HoldsAll m s files)
    (hobjects : ∀ key, under m key = true → s'.objects.get? key = s.objects.get? key) :
    HoldsAll m s' files := by
  intro file hfile
  rw [hobjects _ (under_objectKey m file.1)]
  exact h file hfile

theorem Complete.congr {v : Snapshot} (h : Complete m s v)
    (hobjects : ∀ key, under m key = true → s'.objects.get? key = s.objects.get? key) :
    Complete m s' v where
  only := h.only.congr hobjects
  all := h.all.congr hobjects
  marker := (hobjects _ (under_objectKey m _)).trans h.marker

theorem marked_congr
    (hobjects : ∀ key, under m key = true → s'.objects.get? key = s.objects.get? key) :
    marked m s' = marked m s := by
  simp only [marked, Dict.contains, hobjects _ (under_objectKey m _)]

theorem Consistent.frame {published : Snapshot → Prop} (h : Consistent m published s)
    (hframe : Frame m s s') (hserved : Serves published s'.hub) : Consistent m published s' where
  served := hserved
  marker hmarked := by
    obtain ⟨v, hv, hcomplete⟩ := h.marker (marked_congr hframe.objects ▸ hmarked)
    exact ⟨v, hv, hcomplete.congr hframe.objects⟩
  ready hready := (marked_congr hframe.objects).trans (h.ready (hframe.ready hready))
  oneSnapshot := by
    rcases h.oneSnapshot with hempty | ⟨v, hv, honly⟩
    · exact Or.inl (hempty.congr hframe.objects)
    · exact Or.inr ⟨v, hv, honly.congr hframe.objects⟩

/-- The row may become ready when the marker is there. -/
theorem Consistent.of_objects {published : Snapshot → Prop} (h : Consistent m published s)
    (hobjects : s'.objects = s.objects) (hhub : s'.hub = s.hub)
    (hready : shownReady m s' = true → marked m s = true) : Consistent m published s' where
  served := hhub ▸ h.served
  marker hmarked := by
    have hsame : ∀ key, under m key = true → s'.objects.get? key = s.objects.get? key :=
      fun key _ => by rw [hobjects]
    obtain ⟨v, hv, hcomplete⟩ := h.marker (marked_congr hsame ▸ hmarked)
    exact ⟨v, hv, hcomplete.congr hsame⟩
  ready hshown := by
    rw [marked, hobjects]
    exact hready hshown
  oneSnapshot := by
    simpa only [HoldsOnly, hobjects] using h.oneSnapshot

/-- An update of a row leaves the objects alone. -/
theorem frame_update {id : String} {values : ModelRegistryModel → ModelRegistryModel}
    (h : id = m → ∀ model, (values model).status = .ready → model.status = .ready) :
    Frame m s { s with models := updateModel s.models id values } where
  objects _ _ := rfl
  ready hready := by
    simp only [shownReady, get?_updateModel] at hready ⊢
    split at hready
    next heq =>
      cases hget : s.models.get? m with
      | none => simp [hget] at hready
      | some model => simpa using h heq model (by simpa [hget] using hready)
    next => exact hready

theorem frame_refl : Frame m s s := ⟨fun _ _ => rfl, id⟩

theorem frame_onObjects {f : Dict Body → Dict Body}
    (h : ∀ key, under m key = true → (f s.objects).get? key = s.objects.get? key) :
    Frame m s (s.onObjects f) := by
  unfold RegistryStore.onObjects
  split
  · exact ⟨h, id⟩
  · exact frame_refl

/-- An object of another model, whose prefix does not overlap, is none of this model's. -/
theorem get?_set_elsewhere {id : String} (h : overlaps m id = false) (relative : String)
    (body : Body) (objects : Dict Body) :
    ∀ key, under m key = true →
      (objects.set (objectKey id relative) body).get? key = objects.get? key := by
  intro key hkey
  refine Dict.get?_set_ne _ _ ?_
  rintro rfl
  rw [overlaps_of_under hkey (under_objectKey id relative)] at h
  cases h

theorem status_statusValues (status : DownloadStatus) (model : ModelRegistryModel) :
    (statusValues status model).status = status := by
  cases status <;> rfl

/-- An object of another model is put. -/
theorem frame_set_elsewhere {id : String} (h : overlaps m id = false) (relative : String)
    (body : Body) :
    Frame m s (s.onObjects fun objects => objects.set (objectKey id relative) body) :=
  frame_onObjects fun key hkey => get?_set_elsewhere h relative body s.objects key hkey

/-- Outside the pulls of the model only a sync and a removal touch it. -/
theorem frame_aside {pool : RegistryPool} {i : Nat} {r : Request} (h : r.aside m = true)
    (hkeeps : Keeps m pool i r) (hsync : ∀ updates, r ≠ .commitSync updates)
    (hdelete : ∀ keys, r ≠ .deleteObjects m keys) :
    Frame m pool.store (apply r pool.store) := by
  cases r with
  | setDownloading | updateDownloadProgress | setFailed | resetModel =>
      exact frame_update fun _ _ hready => by first | exact hready | cases hready
  | setReady id =>
      exact frame_update fun heq => absurd heq (by simpa [Request.aside] using h)
  | setModelStatus id status =>
      refine frame_update fun _ model hready => ?_
      rw [status_statusValues] at hready
      simp [Request.aside, hready] at h
  | deleteModel id =>
      refine ⟨fun _ _ => rfl, fun hready => ?_⟩
      have herased : ((pool.store.models.erase id).get? m).any
          (fun model => model.status = .ready) = true := hready
      rw [Dict.get?_erase] at herased
      split at herased
      · cases herased
      · exact herased
  | uploadFile id | putMarker id =>
      have hid : id ≠ m := by simpa [Request.aside] using h
      exact frame_set_elsewhere (hkeeps.resolve_left hid) _ _
  | deleteObjects id keys =>
      have hid : id ≠ m := by
        rintro rfl
        exact hdelete keys rfl
      rw [Keeps, if_neg hid] at hkeeps
      refine frame_onObjects (f := fun objects => Dict.eraseAll objects keys) fun key hkey => ?_
      rw [Dict.get?_eraseAll, if_neg]
      intro hmem
      rw [hkeeps key hmem] at hkey
      cases hkey
  | selectModel | selectModels | countJobs | getModelTotalSizeBytes | snapshotDownload
  | headMarker | listObjects => exact frame_refl
  | commitSync updates => exact absurd rfl (hsync updates)
  | _ => cases h

end Frames

section Protocol

variable {m : String} {J : RegistryStore → Prop}

/-- Where a pull stands after its uploads. -/
def Stage.uploaded (v : Snapshot) : Option String → Stage
  | none => .uploading v v.files
  | some _ => .downloading

def Stage.finished : Option String → Stage
  | none => .stored
  | some _ => .downloading

theorem follows_uploadFiles {v : Snapshot} {done files : Dict Body} (h : v.files = done ++ files) :
    (uploadFiles m files).Follows (PullMove m) J (fun outcome l => l = .uploaded v outcome)
      (.uploading v done) := by
  induction files generalizing done with
  | nil =>
      show Stage.uploading v done = .uploading v v.files
      rw [h, List.append_nil]
  | cons file files ih =>
      have hmem : file ∈ v.files := by simp [h]
      apply Program.follows_perform_bind.mpr
      intro s _
      by_cases hup : s.s3Error = none
      · refine ⟨_, .upload s v done file hmem hup, ?_⟩
        rw [if_pos hup]
        exact ih (by simp [h])
      · refine ⟨_, .uploadFails s v done file hup, ?_⟩
        rw [if_neg hup]
        obtain ⟨error, herror⟩ := Option.ne_none_iff_exists'.mp hup
        simp [herror, Stage.uploaded]

theorem follows_finishUpload (v : Snapshot) (outcome : Option String) :
    (finishUpload m outcome).Follows (PullMove m) J (fun outcome l => l = .finished outcome)
      (.uploaded v outcome) := by
  cases outcome with
  | some error => rfl
  | none =>
      apply Program.follows_perform_bind.mpr
      intro s _
      rcases hup : s.s3Error with _ | error
      · exact ⟨_, .mark s v hup, rfl⟩
      · exact ⟨_, .markFails s v (by simp [hup]), rfl⟩

theorem follows_pullFailure (error : String) :
    (pullFailure m error).Follows (PullMove m) J (fun _ l => l = .apart) .downloading := by
  apply follows_exec.mpr
  intro s _
  exact ⟨.apart, .fail s error, rfl⟩

theorem follows_pullSuccess (bucket : String) (size : Nat) :
    (pullSuccess bucket m size).Follows (PullMove m) J (fun _ l => l = .apart) .stored := by
  apply follows_exec.mpr
  intro s _
  refine ⟨.apart, .ready s _ size, ?_⟩
  intro s' _
  exact ⟨.apart, .select s', rfl⟩

theorem follows_pullUploaded (bucket : String) (v : Snapshot) (outcome : Option String) :
    (pullUploaded bucket m v outcome).Follows (PullMove m) J (fun _ l => l = .apart)
      (.finished outcome) := by
  cases outcome with
  | none => exact follows_pullSuccess bucket _
  | some error => exact follows_pullFailure error

theorem follows_uploadModelToS3 (v : Snapshot) :
    (uploadModelToS3 m v).Follows (PullMove m) J (fun outcome l => l = .finished outcome)
      (.uploading v []) := by
  apply Program.follows_bind.mpr
  apply Program.follows_mono (follows_uploadFiles (List.nil_append v.files).symm)
  rintro outcome l rfl
  exact follows_finishUpload v outcome

theorem follows_download (bucket repo : String) :
    (download bucket m repo).Follows (PullMove m) J (fun _ l => l = .apart) .downloading := by
  apply Program.follows_perform_bind.mpr
  intro s _
  refine ⟨.downloading, .size s repo, ?_⟩
  apply follows_exec.mpr
  intro s' _
  refine ⟨.downloading, .progress s' _, ?_⟩
  apply Program.follows_perform_bind.mpr
  intro s'' _
  rcases hub : s''.hub repo with error | v
  · exact ⟨.downloading, .lost s'' repo, follows_pullFailure error⟩
  · refine ⟨.uploading v [], .snapshot s'' repo v hub, ?_⟩
    apply Program.follows_bind.mpr
    apply Program.follows_mono (follows_uploadModelToS3 v)
    rintro outcome l rfl
    exact follows_pullUploaded bucket v outcome

theorem follows_pullModel (bucket : String) (force : Bool) :
    (pullModel bucket m force).Follows (PullMove m) J (fun _ l => l = .apart) .apart := by
  apply Program.follows_perform_bind.mpr
  intro s _
  rcases hmodel : s.models.get? m with _ | model
  · exact ⟨.apart, .select s, rfl⟩
  · by_cases hready : model.status = .ready ∧ ¬ force
    · refine ⟨.apart, .select s, ?_⟩
      rw [pullFound, if_pos hready]
      rfl
    by_cases hresume : model.status = .downloading
    · have hnot : shownReady m s = false := by simp [shownReady, hmodel, hresume]
      refine ⟨.downloading, .resume s hnot, ?_⟩
      rw [pullFound, if_neg hready, if_pos hresume]
      exact follows_download bucket _
    · refine ⟨.apart, .select s, ?_⟩
      rw [pullFound, if_neg hready, if_neg hresume]
      apply follows_exec.mpr
      intro s' _
      exact ⟨.downloading, .start s', follows_download bucket _⟩

end Protocol

theorem aside_of_performs {m : String} {c : Call} {r : Request} (h : c.performs r)
    (hc : c.pulls m = false) : r.aside m = true := by
  cases c with
  | pull id force =>
      have hne : id ≠ m := by simpa [Call.pulls] using hc
      cases r with
      | uploadFile | putMarker | setReady =>
          obtain rfl := h
          simpa [Request.aside] using hne
      | selectModel | setDownloading | updateDownloadProgress | snapshotDownload | setFailed
      | getModelTotalSizeBytes => rfl
      | _ => cases h
  | startPull id force =>
      cases r with
      | setModelStatus id' status => simpa [Request.aside] using h.2
      | selectModel => rfl
      | _ => cases h
  | remove id purge =>
      cases r with
      | selectModel | countJobs | listObjects | deleteObjects | resetModel | deleteModel => rfl
      | _ => cases h
  | sync =>
      cases r with
      | selectModels | headMarker | listObjects | commitSync => rfl
      | _ => cases h

theorem follows_stages (m bucket : String) {J : RegistryStore → Prop} (c : Call) :
    (c.code bucket).Follows (stageMove m c) J (stageEnd c) .apart := by
  rcases hc : c.pulls m with _ | _
  · refine Program.follows_of_only (within_code bucket c) (fun _ r hr => ?_) fun _ => rfl
    simpa [stageMove, hc] using aside_of_performs hr hc
  · cases c with
    | pull id force =>
        obtain rfl : id = m := by simpa [Call.pulls] using hc
        have hmove : stageMove id (.pull id force) = PullMove id := by simp [stageMove, hc]
        rw [hmove]
        exact follows_pullModel bucket force
    | startPull | remove | sync => cases hc

section Stages

variable {m : String} {t : RegistryThread} {g : Local Call RegistryStore Stage}

/-- What a pull does next is a move from its stage. -/
theorem move_of_matches (h : t.Matches (stageMove m) (fun _ => True) stageEnd g)
    (hpulls : g.call.pulls m = true) (hstate : g.state ≠ .apart) (s : RegistryStore) :
    ∃ r l, t.rest.next? = some r ∧ PullMove m g.state s r l := by
  have hmove : stageMove m g.call = PullMove m := by simp [stageMove, hpulls]
  have hfollows := h.follows
  rw [hmove] at hfollows
  cases hnext : t.rest.next? with
  | none =>
      obtain ⟨_, hend⟩ := Program.follows_end hfollows hnext
      exact absurd hend hstate
  | some r =>
      obtain ⟨l, hl⟩ := Program.follows_next hfollows (s := s) trivial hnext
      exact ⟨r, l, rfl, hl⟩

theorem downloading_of_stage (h : t.Matches (stageMove m) (fun _ => True) stageEnd g)
    (hpulls : g.call.pulls m = true) (hstate : g.state ≠ .apart) (s : RegistryStore) :
    downloading m t = true := by
  obtain ⟨r, l, hnext, hmove⟩ := move_of_matches h hpulls hstate s
  rw [downloading, h.call, hpulls, hnext]
  generalize g.state = l₀ at hstate hmove
  cases hmove with
  | select | resume | start => exact absurd rfl hstate
  | _ => rfl

theorem storing_of_stage (h : t.Matches (stageMove m) (fun _ => True) stageEnd g)
    (hpulls : g.call.pulls m = true) (hstate : g.state.storing = true) (s : RegistryStore) :
    storing m t = true := by
  have hne : g.state ≠ .apart := by
    intro hapart
    rw [hapart] at hstate
    cases hstate
  obtain ⟨r, l, hnext, hmove⟩ := move_of_matches h hpulls hne s
  rw [storing, h.call, hpulls, hnext]
  generalize g.state = l₀ at hstate hmove
  cases hmove with
  | upload | uploadFails | mark | markFails | ready => rfl
  | _ => cases hstate

theorem stage_of_downloading (h : t.Matches (stageMove m) (fun _ => True) stageEnd g)
    (hdownloading : downloading m t = true) (s : RegistryStore) : g.state ≠ .apart := by
  intro hapart
  obtain ⟨hpulls, hany⟩ := Bool.and_eq_true_iff.mp hdownloading
  obtain ⟨r, hnext, hr⟩ := (Option.any_eq_true _ _).mp hany
  rw [h.call] at hpulls
  have hfollows := h.follows
  rw [stageMove, if_pos hpulls, hapart] at hfollows
  obtain ⟨l, hmove⟩ := Program.follows_next hfollows (s := s) trivial hnext
  cases hmove <;> cases hr

end Stages

section Runs

variable {m bucket : String} {published : Snapshot → Prop}

/-- What a pull knows at its stage. -/
def Stage.Sound (m : String) (published : Snapshot → Prop) (s : RegistryStore) : Stage → Prop
  | apart => True
  | downloading => shownReady m s = false
  | uploading v done =>
      shownReady m s = false ∧ published v ∧ Fresh m s v ∧ done ⊆ v.files ∧ HoldsAll m s done
  | stored => shownReady m s = false ∧ marked m s = true

/-- The registry agrees with the store, and one pull at most is uploading. -/
structure Ledger (m : String) (published : Snapshot → Prop)
    (s : Shared Call Request RegistryStore Reply) (gs : Multiset (Local Call RegistryStore Stage)) :
    Prop where
  consistent : Consistent m published s.store
  sound : ∀ g ∈ gs, g.state.Sound m published s.store
  aside : ∀ g ∈ gs, g.call.pulls m = false → g.state = .apart
  alone : gs.countP (fun g => g.state.storing = true) ≤ 1

theorem Fresh.frame {s s' : RegistryStore} {v : Snapshot} (h : Fresh m s v)
    (hframe : Frame m s s') : Fresh m s' v where
  only := h.only.congr hframe.objects
  marker hmarked := (h.marker (marked_congr hframe.objects ▸ hmarked)).congr hframe.objects
  unnamed := h.unnamed

theorem Stage.Sound.frame {s s' : RegistryStore} {l : Stage} (h : l.Sound m published s)
    (hframe : Frame m s s') : l.Sound m published s' := by
  have hready : shownReady m s = false → shownReady m s' = false := by
    intro hnot
    rw [Bool.eq_false_iff] at hnot ⊢
    exact fun hshown => hnot (hframe.ready hshown)
  cases l with
  | apart => trivial
  | downloading => exact hready h
  | uploading v done =>
      obtain ⟨hnot, hpublished, hfresh, hdone, hall⟩ := h
      exact ⟨hready hnot, hpublished, hfresh.frame hframe, hdone, hall.congr hframe.objects⟩
  | stored => exact ⟨hready h.1, (marked_congr hframe.objects).trans h.2⟩

/-- A pull that is not uploading only relies on the row. -/
theorem Stage.Sound.of_ready {s s' : RegistryStore} {l : Stage} (h : l.Sound m published s)
    (hstoring : l.storing = false) (hready : shownReady m s' = shownReady m s) :
    l.Sound m published s' := by
  cases l with
  | apart => trivial
  | downloading => exact hready.trans h
  | uploading | stored => cases hstoring

theorem Stage.Sound.not_ready {s : RegistryStore} {l : Stage} (h : l.Sound m published s)
    (hne : l ≠ .apart) : shownReady m s = false := by
  cases l with
  | apart => exact absurd rfl hne
  | downloading => exact h
  | uploading | stored => exact h.1

theorem shownReady_onObjects (s : RegistryStore) (f : Dict Body → Dict Body) :
    shownReady m (s.onObjects f) = shownReady m s := by
  rw [shownReady, RegistryStore.onObjects_models, shownReady]

section Uploads

variable {s : RegistryStore} {v : Snapshot} {file : String × Body}

theorem get?_uploadFile (hup : s.s3Error = none) (relative : String) (body : Body) (key : String) :
    (apply (Request.uploadFile m relative body) s).objects.get? key =
      if objectKey m relative = key then some body else s.objects.get? key := by
  simp only [apply, Request.apply, RegistryStore.onObjects, hup, Dict.get?_set]

theorem get?_putMarker (hup : s.s3Error = none) (key : String) :
    (apply (Request.putMarker m) s).objects.get? key =
      if objectKey m completeMarker = key then some [] else s.objects.get? key := by
  simp only [apply, Request.apply, RegistryStore.onObjects, hup, Dict.get?_set]

theorem HoldsOnly.uploadFile (h : HoldsOnly m s v.files) (hup : s.s3Error = none)
    (hfile : file ∈ v.files) :
    HoldsOnly m (apply (Request.uploadFile m file.1 file.2) s) v.files := by
  intro key body hget hunder hne
  rw [get?_uploadFile hup] at hget
  split at hget
  next heq =>
    obtain rfl := Option.some.inj hget
    exact ⟨file.1, heq.symm, hfile⟩
  next => exact h key body hget hunder hne

theorem HoldsAll.uploadFile {done : Dict Body} (h : HoldsAll m s done) (hdone : done ⊆ v.files)
    (hup : s.s3Error = none) (hfile : file ∈ v.files) :
    HoldsAll m (apply (Request.uploadFile m file.1 file.2) s) (done ++ [file]) := by
  intro other hother
  rw [get?_uploadFile hup]
  split
  next heq =>
    have hmem : other ∈ v.files := by
      rcases List.mem_append.mp hother with hold | hnew
      · exact hdone hold
      · exact List.mem_singleton.mp hnew ▸ hfile
    rw [List.inj_on_of_nodup_map v.distinct hfile hmem (objectKey_inj heq)]
  next hne =>
    rcases List.mem_append.mp hother with hold | hnew
    · exact h other hold
    · exact absurd (by rw [List.mem_singleton.mp hnew]) hne

theorem marked_uploadFile (hup : s.s3Error = none) (hne : file.1 ≠ completeMarker) :
    marked m (apply (Request.uploadFile m file.1 file.2) s) = marked m s := by
  rw [marked, Dict.contains, get?_uploadFile hup, if_neg]
  · rfl
  · exact fun heq => hne (objectKey_inj heq)

theorem Complete.uploadFile (h : Complete m s v) (hup : s.s3Error = none) (hfile : file ∈ v.files)
    (hne : file.1 ≠ completeMarker) :
    Complete m (apply (Request.uploadFile m file.1 file.2) s) v where
  only := h.only.uploadFile hup hfile
  all other hother :=
    h.all.uploadFile (List.Subset.refl _) hup hfile other (List.mem_append_left _ hother)
  marker := by
    rw [get?_uploadFile hup, if_neg fun heq => hne (objectKey_inj heq)]
    exact h.marker

theorem Fresh.uploadFile (h : Fresh m s v) (hup : s.s3Error = none) (hfile : file ∈ v.files) :
    Fresh m (apply (Request.uploadFile m file.1 file.2) s) v where
  only := h.only.uploadFile hup hfile
  marker hmarked := by
    have hne := h.unnamed file hfile
    rw [marked_uploadFile hup hne] at hmarked
    exact (h.marker hmarked).uploadFile hup hfile hne
  unnamed := h.unnamed

/-- The marker completes a fresh prefix that has all files. -/
theorem Fresh.complete (h : Fresh m s v) (hall : HoldsAll m s v.files) (hup : s.s3Error = none) :
    Complete m (apply (Request.putMarker m) s) v where
  only := by
    intro key body hget hunder hne
    rw [get?_putMarker hup, if_neg (Ne.symm hne)] at hget
    exact h.only key body hget hunder hne
  all := by
    intro file hfile
    rw [get?_putMarker hup, if_neg]
    · exact hall file hfile
    · exact fun heq => h.unnamed file hfile (objectKey_inj heq).symm
  marker := by rw [get?_putMarker hup, if_pos rfl]

theorem Complete.marked (h : Complete m s v) : marked m s = true := by
  simp [Models.marked, Dict.contains, h.marker]

end Uploads

theorem hub_onObjects (s : RegistryStore) (f : Dict Body → Dict Body) :
    (s.onObjects f).hub = s.hub := by
  unfold RegistryStore.onObjects
  split <;> rfl

/-- The hub goes on serving published snapshots. -/
theorem served_apply {s : RegistryStore} {r : Request} (h : Serves published s.hub)
    (hr : ∀ hub hubSize, r = .hubChanges hub hubSize → Serves published hub) :
    Serves published (apply r s).hub := by
  cases r with
  | hubChanges hub hubSize => exact hr hub hubSize rfl
  | uploadFile | putMarker | deleteObjects => exact (hub_onObjects s _).symm ▸ h
  | modelRegistered id model =>
      simp only [apply, Request.apply]
      split <;> exact h
  | _ => exact h

section Steps

variable {s : RegistryStore} {l l' : Stage} {r : Request}

/-- Before its snapshot a pull touches nothing but the row. -/
theorem PullMove.frame (h : PullMove m l s r l') (hl : l.storing = false) :
    Frame m s (apply r s) := by
  cases h with
  | start | progress | fail =>
      exact frame_update fun _ _ hready => by first | exact hready | cases hready
  | select | resume | size | lost | snapshot => exact frame_refl
  | upload | uploadFails | mark | markFails | ready => cases hl

theorem shownReady_setDownloading (s : RegistryStore) :
    shownReady m (apply (Request.setDownloading m) s) = false := by
  simp only [shownReady, apply, Request.apply, get?_updateModel, if_true, Option.any_map]
  cases s.models.get? m <;> rfl

theorem apply_of_s3Error (h : s.s3Error ≠ none) (f : Dict Body → Dict Body) :
    s.onObjects f = s := by
  obtain ⟨error, herror⟩ := Option.ne_none_iff_exists'.mp h
  rw [RegistryStore.onObjects, herror]

/-- A pull that finds the prefix fresh keeps the agreement, and its own knowledge. -/
theorem PullMove.sound (h : PullMove m l s r l') (hcons : Consistent m published s)
    (hl : l.Sound m published s)
    (hfresh : ∀ repo v, r = .snapshotDownload m repo → s.hub repo = .ok v → Fresh m s v) :
    Consistent m published (apply r s) ∧ l'.Sound m published (apply r s) := by
  cases h with
  | select => exact ⟨hcons, trivial⟩
  | resume _ hnot => exact ⟨hcons, hnot⟩
  | start =>
      have hframe := (PullMove.start (m := m) s).frame rfl
      exact ⟨hcons.frame hframe hcons.served, shownReady_setDownloading s⟩
  | size => exact ⟨hcons, hl⟩
  | progress _ expected =>
      have hframe := (PullMove.progress (m := m) s expected).frame rfl
      exact ⟨hcons.frame hframe hcons.served, Stage.Sound.frame (l := .downloading) hl hframe⟩
  | lost => exact ⟨hcons, hl⟩
  | snapshot _ repo v hub =>
      refine ⟨hcons, hl, hcons.served repo v hub, hfresh repo v rfl hub, ?_, ?_⟩
      · exact List.nil_subset _
      · intro file hfile
        cases hfile
  | upload _ v done file hfile hup =>
      obtain ⟨hnot, hpublished, hfresh, hdone, hall⟩ := hl
      have hnot' : shownReady m (apply (Request.uploadFile m file.1 file.2) s) = false :=
        (shownReady_onObjects s _).trans hnot
      have hfresh' := hfresh.uploadFile hup hfile
      refine ⟨⟨?_, ?_, ?_, ?_⟩, hnot', hpublished, hfresh', ?_, hall.uploadFile hdone hup hfile⟩
      · exact (hub_onObjects s _).symm ▸ hcons.served
      · exact fun hmarked => ⟨v, hpublished, hfresh'.marker hmarked⟩
      · exact fun hready => absurd hready (by simp [hnot'])
      · exact Or.inr ⟨v, hpublished, hfresh'.only⟩
      · exact List.append_subset.mpr ⟨hdone, List.cons_subset.mpr ⟨hfile, List.nil_subset _⟩⟩
  | uploadFails _ v done file hdown =>
      have hsame : apply (Request.uploadFile m file.1 file.2) s = s := by
        simp only [apply, Request.apply, apply_of_s3Error hdown]
      rw [hsame]
      exact ⟨hcons, hl.1⟩
  | mark _ v hup =>
      obtain ⟨hnot, hpublished, hfresh, _, hall⟩ := hl
      have hnot' : shownReady m (apply (Request.putMarker m) s) = false :=
        (shownReady_onObjects s _).trans hnot
      have hcomplete := hfresh.complete hall hup
      refine ⟨⟨?_, ?_, ?_, ?_⟩, hnot', hcomplete.marked⟩
      · exact (hub_onObjects s _).symm ▸ hcons.served
      · exact fun _ => ⟨v, hpublished, hcomplete⟩
      · exact fun _ => hcomplete.marked
      · exact Or.inr ⟨v, hpublished, hcomplete.only⟩
  | markFails _ v hdown =>
      have hsame : apply (Request.putMarker m) s = s := by
        simp only [apply, Request.apply, apply_of_s3Error hdown]
      rw [hsame]
      exact ⟨hcons, hl.1⟩
  | ready _ uri size =>
      exact ⟨hcons.of_objects rfl rfl fun _ => hl.2, trivial⟩
  | fail _ error =>
      have hframe := (PullMove.fail (m := m) s error).frame rfl
      exact ⟨hcons.frame hframe hcons.served, trivial⟩

/-- The other calls keep what they know, if none of them is in the way. -/
theorem PullMove.sound_others (h : PullMove m l s r l') {l₀ : Stage}
    (hl₀ : l₀.Sound m published s) (hstoring : l.storing = true → l₀.storing = false)
    (hready : ∀ uri size, r = .setReady m uri size → l₀ = .apart) :
    l₀.Sound m published (apply r s) := by
  rcases hl : l.storing with _ | _
  · exact hl₀.frame (h.frame hl)
  · have hquiet := hstoring hl
    cases h with
    | upload | uploadFails | mark | markFails =>
        exact hl₀.of_ready hquiet (shownReady_onObjects s _)
    | ready _ uri size =>
        rw [hready uri size rfl]
        trivial
    | _ => cases hl

/-- A sync makes the model ready only when it has found it. -/
theorem shownReady_updates {updates : List SyncUpdate} {models : Dict ModelRegistryModel}
    (h : ((updates.foldl SyncUpdate.apply models).get? m).any
      (fun model => model.status = .ready) = true) :
    (models.get? m).any (fun model => model.status = .ready) = true ∨
      ∃ uri size, .present m uri size ∈ updates := by
  induction updates generalizing models with
  | nil => exact Or.inl h
  | cons update rest ih =>
      rcases ih h with hready | ⟨uri, size, hmem⟩
      · cases update with
        | present id uri size =>
            by_cases hid : id = m
            · exact Or.inr ⟨uri, size, hid ▸ List.mem_cons_self⟩
            · rw [SyncUpdate.apply, get?_updateModel, if_neg hid] at hready
              exact Or.inl hready
        | missing id =>
            rw [SyncUpdate.apply, get?_updateModel] at hready
            split at hready
            · cases hget : models.get? m <;> simp [hget] at hready
            · exact Or.inl hready
      · exact Or.inr ⟨uri, size, List.mem_cons_of_mem _ hmem⟩

theorem HoldsOnly.deleteObjects {files : Dict Body} (h : HoldsOnly m s files)
    (keys : List String) : HoldsOnly m (apply (Request.deleteObjects m keys) s) files := by
  rcases hup : s.s3Error with _ | error
  · intro key body hget hunder hne
    simp only [apply, Request.apply, RegistryStore.onObjects, hup, Dict.get?_eraseAll] at hget
    split at hget
    · cases hget
    · exact h key body hget hunder hne
  · simpa only [apply, Request.apply, RegistryStore.onObjects, hup] using h

/-- A removal that deletes the marker first leaves no marker. -/
theorem marked_deleteObjects {keys : List String}
    (hkeys : marked m s = true → objectKey m completeMarker ∈ keys) (hup : s.s3Error = none) :
    marked m (apply (Request.deleteObjects m keys) s) = false := by
  simp only [marked, Dict.contains, apply, Request.apply, RegistryStore.onObjects, hup,
    Dict.get?_eraseAll]
  split
  next => rfl
  next hmem =>
    rw [Bool.eq_false_iff]
    exact fun hmarked => hmem (hkeys hmarked)

theorem consistent_deleteObjects {keys : List String} (h : Consistent m published s)
    (hready : shownReady m s = false)
    (hkeys : marked m s = true → objectKey m completeMarker ∈ keys) :
    Consistent m published (apply (Request.deleteObjects m keys) s) := by
  by_cases hup : s.s3Error = none
  · have hready' : shownReady m (apply (Request.deleteObjects m keys) s) = false :=
      (shownReady_onObjects s _).trans hready
    refine ⟨?_, ?_, ?_, ?_⟩
    · exact (hub_onObjects s _).symm ▸ h.served
    · exact fun hmarked => absurd hmarked (by simp [marked_deleteObjects hkeys hup])
    · exact fun hshown => absurd hshown (by simp [hready'])
    · rcases h.oneSnapshot with hempty | ⟨v, hv, honly⟩
      · exact Or.inl (HoldsOnly.deleteObjects hempty keys)
      · exact Or.inr ⟨v, hv, honly.deleteObjects keys⟩
  · simpa only [apply, Request.apply, apply_of_s3Error hup] using h

end Steps

section Asides

variable {pool : RegistryPool} {i : Nat} {r : Request}

theorem consistent_aside (h : r.aside m = true) (hkeeps : Keeps m pool i r)
    (hcons : Consistent m published pool.store) : Consistent m published (apply r pool.store) := by
  by_cases hsync : ∃ updates, r = .commitSync updates
  · obtain ⟨updates, rfl⟩ := hsync
    refine hcons.of_objects rfl rfl fun hshown => ?_
    rcases shownReady_updates hshown with hready | hfound
    · exact hcons.ready hready
    · exact (hkeeps hfound).1
  by_cases hdelete : ∃ keys, r = .deleteObjects m keys
  · obtain ⟨keys, rfl⟩ := hdelete
    rw [Keeps, if_pos rfl] at hkeeps
    exact consistent_deleteObjects hcons hkeeps.1 hkeeps.2.1
  · refine hcons.frame (frame_aside h hkeeps ?_ ?_) (served_apply hcons.served ?_)
    · exact fun updates heq => hsync ⟨updates, heq⟩
    · exact fun keys heq => hdelete ⟨keys, heq⟩
    · rintro hub hubSize rfl
      cases h

/-- The other calls keep what they know, if none of them is in the way. -/
theorem sound_aside (h : r.aside m = true) (hkeeps : Keeps m pool i r) {l : Stage}
    (hl : l.Sound m published pool.store)
    (hstoring : (∀ t ∈ pool.threads.eraseIdx i, storing m t = false) → l.storing = false)
    (hdownloading : (∀ t ∈ pool.threads.eraseIdx i, downloading m t = false) → l = .apart) :
    l.Sound m published (apply r pool.store) := by
  by_cases hsync : ∃ updates, r = .commitSync updates
  · obtain ⟨updates, rfl⟩ := hsync
    by_cases hfound : ∃ uri size, SyncUpdate.present m uri size ∈ updates
    · rw [hdownloading (hkeeps hfound).2]
      trivial
    · refine hl.frame ⟨fun _ _ => rfl, fun hshown => ?_⟩
      exact (shownReady_updates hshown).resolve_right hfound
  by_cases hdelete : ∃ keys, r = .deleteObjects m keys
  · obtain ⟨keys, rfl⟩ := hdelete
    rw [Keeps, if_pos rfl] at hkeeps
    exact hl.of_ready (hstoring hkeeps.2.2) (shownReady_onObjects pool.store _)
  · refine hl.frame (frame_aside h hkeeps ?_ ?_)
    · exact fun updates heq => hsync ⟨updates, heq⟩
    · exact fun keys heq => hdelete ⟨keys, heq⟩

/-- Nothing that happens outside touches the row or the objects of the model. -/
theorem frame_outside {s : RegistryStore} (h : Outside published r) : Frame m s (apply r s) := by
  cases r with
  | modelRegistered id model =>
      simp only [apply, Request.apply]
      split
      next => exact frame_refl
      next habsent =>
        refine ⟨fun _ _ => rfl, fun hready => ?_⟩
        have hmodel : model.status ≠ .ready := by simpa [Outside, Request.fromOutside] using h
        simp only [shownReady, Dict.get?_set] at hready
        split at hready
        next => exact absurd (by simpa using hready) hmodel
        next => exact hready
  | jobInserted | jobStatusWritten | jobDeleted | hubChanges | s3Changes | timePasses =>
      exact ⟨fun _ _ => rfl, id⟩
  | _ => cases h

end Asides

section Others

variable {s : Shared Call Request RegistryStore Reply} {g : Local Call RegistryStore Stage}
  {gs : Multiset (Local Call RegistryStore Stage)} {ts : List RegistryThread}

theorem Ledger.rest (h : Ledger m published s (g ::ₘ gs)) : Ledger m published s gs where
  consistent := h.consistent
  sound g' hg' := h.sound g' (Multiset.mem_cons_of_mem hg')
  aside g' hg' := h.aside g' (Multiset.mem_cons_of_mem hg')
  alone := (Multiset.countP_le_of_le _ (Multiset.le_cons_self gs g)).trans h.alone

theorem Ledger.not_storing (h : Ledger m published s gs)
    (hrel : Multiset.Rel (Thread.Matches (stageMove m) (fun _ => True) stageEnd) ts gs)
    (hts : ∀ t ∈ ts, storing m t = false) (hg : g ∈ gs) : g.state.storing = false := by
  obtain ⟨t, ht, hmatch⟩ := Thread.exists_matching hrel hg
  rcases hpulls : g.call.pulls m with _ | _
  · rw [h.aside g hg hpulls]
    rfl
  · by_contra hstoring
    have hbusy := storing_of_stage hmatch hpulls (by simpa using hstoring) s.store
    rw [hts t ht] at hbusy
    cases hbusy

theorem Ledger.all_apart (h : Ledger m published s gs)
    (hrel : Multiset.Rel (Thread.Matches (stageMove m) (fun _ => True) stageEnd) ts gs)
    (hts : ∀ t ∈ ts, downloading m t = false) (hg : g ∈ gs) : g.state = .apart := by
  obtain ⟨t, ht, hmatch⟩ := Thread.exists_matching hrel hg
  rcases hpulls : g.call.pulls m with _ | _
  · exact h.aside g hg hpulls
  · by_contra hne
    have hbusy := downloading_of_stage hmatch hpulls hne s.store
    rw [hts t ht] at hbusy
    cases hbusy

/-- While a call is uploading no other is. -/
theorem Ledger.others_quiet (h : Ledger m published s (g ::ₘ gs)) (hg : g.state.storing = true)
    {g' : Local Call RegistryStore Stage} (hg' : g' ∈ gs) : g'.state.storing = false := by
  have hcount := h.alone
  rw [Multiset.countP_cons_of_pos (p := fun g => g.state.storing = true) gs hg] at hcount
  have hzero : gs.countP (fun g => g.state.storing = true) = 0 := by omega
  simpa using Multiset.countP_eq_zero.mp hzero g' hg'

end Others

theorem PullMove.storing {l l' : Stage} {s : RegistryStore} {r : Request}
    (h : PullMove m l s r l') (hstoring : l'.storing = true) :
    l.storing = true ∨ ∃ repo v, r = .snapshotDownload m repo ∧ s.hub repo = .ok v := by
  cases h with
  | snapshot _ repo v hub => exact Or.inr ⟨repo, v, rfl, hub⟩
  | upload | mark => exact Or.inl rfl
  | _ => cases hstoring

/-- The move of a pull of the model. -/
theorem Ledger.pull {pool : RegistryPool} {g : Local Call RegistryStore Stage}
    {gs : Multiset (Local Call RegistryStore Stage)} {i : Nat} {r : Request} {l : Stage}
    (h : Ledger m published pool.toShared (g ::ₘ gs)) (hkeeps : Keeps m pool i r)
    (hothers : Multiset.Rel (Thread.Matches (stageMove m) (fun _ => True) stageEnd)
      (pool.threads.eraseIdx i) gs)
    (hpulls : g.call.pulls m = true) (hmove : PullMove m g.state pool.store r l) :
    Ledger m published (pool.toShared.perform r) ({ g with state := l } ::ₘ gs) := by
  have hfresh : ∀ repo v, r = .snapshotDownload m repo → pool.store.hub repo = .ok v →
      Fresh m pool.store v := by
    rintro repo v rfl hub
    exact (hkeeps rfl v hub).1
  obtain ⟨hcons, hsound⟩ :=
    hmove.sound h.consistent (h.sound g (Multiset.mem_cons_self g gs)) hfresh
  refine ⟨hcons, ?_, ?_, ?_⟩
  · intro g' hg'
    rcases Multiset.mem_cons.mp hg' with rfl | hg'
    · exact hsound
    · refine hmove.sound_others (h.rest.sound g' hg') (fun hg => h.others_quiet hg hg') ?_
      rintro uri size rfl
      exact h.rest.all_apart hothers (hkeeps rfl) hg'
  · intro g' hg' hcall
    rcases Multiset.mem_cons.mp hg' with rfl | hg'
    · exact absurd hpulls (by simp [hcall])
    · exact h.rest.aside g' hg' hcall
  · by_cases hl : l.storing = true
    · have hquiet : ∀ g' ∈ gs, g'.state.storing = false := by
        intro g' hg'
        rcases hmove.storing hl with hg | ⟨repo, v, rfl, hub⟩
        · exact h.others_quiet hg hg'
        · exact h.rest.not_storing hothers (hkeeps rfl v hub).2 hg'
      rw [Multiset.countP_cons_of_pos (p := fun g => g.state.storing = true) gs hl,
        Multiset.countP_eq_zero.mpr]
      intro g' hg'
      simp [hquiet g' hg']
    · rw [Multiset.countP_cons_of_neg (p := fun g => g.state.storing = true) gs hl]
      exact h.rest.alone

/-- The move of a call that does not pull the model. -/
theorem Ledger.other {pool : RegistryPool} {g : Local Call RegistryStore Stage}
    {gs : Multiset (Local Call RegistryStore Stage)} {i : Nat} {r : Request}
    (h : Ledger m published pool.toShared (g ::ₘ gs)) (hkeeps : Keeps m pool i r)
    (hothers : Multiset.Rel (Thread.Matches (stageMove m) (fun _ => True) stageEnd)
      (pool.threads.eraseIdx i) gs)
    (hcall : g.call.pulls m = false) (haside : r.aside m = true) :
    Ledger m published (pool.toShared.perform r) (g ::ₘ gs) where
  consistent := consistent_aside haside hkeeps h.consistent
  sound g' hg' := by
    rcases Multiset.mem_cons.mp hg' with rfl | hg'
    · rw [h.aside g' (Multiset.mem_cons_self g' gs) hcall]
      trivial
    · refine sound_aside haside hkeeps (h.rest.sound g' hg') (fun hts => ?_) fun hts => ?_
      · exact h.rest.not_storing hothers hts hg'
      · exact h.rest.all_apart hothers hts hg'
  aside := h.aside
  alone := h.alone

theorem ledger_preserved :
    Preserved (Call.code bucket) (stageMove m) (fun _ => True) stageEnd (fun _ => .apart)
      (Orderly m published) (Ledger m published) := by
  constructor
  case code =>
    intro pool c _
    exact follows_stages m bucket c
  case store =>
    intro s gs _
    trivial
  case start =>
    intro pool gs c _ h _
    refine ⟨h.consistent, ?_, ?_, ?_⟩
    · intro g hg
      rcases Multiset.mem_cons.mp hg with rfl | hg
      · trivial
      · exact h.sound g hg
    · intro g hg hcall
      rcases Multiset.mem_cons.mp hg with rfl | hg
      · rfl
      · exact h.aside g hg hcall
    · rw [Multiset.countP_cons_of_neg _ (by simp [Stage.storing])]
      exact h.alone
  case move =>
    intro pool g gs i r l h hok hnext hothers hmove
    have hkeeps := hok r hnext
    rcases hcall : g.call.pulls m with _ | _
    · obtain ⟨haside, rfl⟩ : r.aside m = true ∧ l = g.state := by
        simpa [stageMove, hcall] using hmove
      exact h.other hkeeps hothers hcall haside
    · rw [stageMove, if_pos hcall] at hmove
      exact h.pull hkeeps hothers hcall hmove
  case done =>
    intro pool g gs a h _
    have hrest := h.rest
    exact ⟨hrest.consistent, hrest.sound, hrest.aside, hrest.alone⟩
  case fail =>
    intro pool t g gs i h _ _ _
    exact h.rest
  case outside =>
    intro pool gs r hm h hok
    have hframe : Frame m pool.store (apply r pool.store) := frame_outside hok
    refine ⟨h.consistent.frame hframe (served_apply h.consistent.served ?_), ?_, h.aside, h.alone⟩
    · rintro hub hubSize rfl
      exact hok
    · intro g hg
      exact (h.sound g hg).frame hframe

/-- In every run in which pulls find the prefix fresh, removals find the model not shown as
ready and no call gets in the way of a pull, a ready model is complete, files of two
snapshots are never side by side, and a pull that is downloading is not shown as ready. -/
theorem registry_agrees {start : RegistryStore} {pool : RegistryPool}
    (hstart : Consistent m published start)
    (run : Pool.Run (Call.code bucket) (Orderly m published) (Pool.idle start) pool) :
    Agrees m published pool.store ∧
      ∀ t ∈ pool.threads, downloading m t = true → shownReady m pool.store = false := by
  have hidle : Ledger m published (Pool.idle start : RegistryPool).toShared 0 :=
    ⟨hstart, by simp, by simp, by simp⟩
  obtain ⟨gs, hm, h⟩ := ledger_preserved.run run ⟨0, Pool.matches_idle _, hidle⟩
  refine ⟨h.consistent.agrees, fun t ht hdownloading => ?_⟩
  obtain ⟨i, hi⟩ := List.mem_iff_getElem?.mp ht
  obtain ⟨g, rest, rfl, hmatch, _⟩ := hm.split hi
  have hne := stage_of_downloading hmatch hdownloading pool.store
  exact (h.sound g (Multiset.mem_cons_self g rest)).not_ready hne

end Runs

section Decisions

variable {m : String} {s : RegistryStore}

theorem holdsOnly_iff {files : Dict Body} :
    HoldsOnly m s files ↔ ∀ kv ∈ s.objects, s.objects.get? kv.1 = some kv.2 →
      under m kv.1 = true → kv.1 ≠ objectKey m completeMarker →
        ∃ file ∈ files, kv.1 = objectKey m file.1 ∧ kv.2 = file.2 := by
  constructor
  · intro h kv _ hget hunder hne
    obtain ⟨relative, hkey, hmem⟩ := h kv.1 kv.2 hget hunder hne
    exact ⟨_, hmem, hkey, rfl⟩
  · intro h key body hget hunder hne
    obtain ⟨⟨relative, _⟩, hmem, hkey, rfl⟩ :=
      h ⟨key, body⟩ (Dict.mem_of_get? hget) hget hunder hne
    exact ⟨relative, hkey, hmem⟩

instance (files : Dict Body) : Decidable (HoldsOnly m s files) := decidable_of_iff' _ holdsOnly_iff

instance (files : Dict Body) : Decidable (HoldsAll m s files) :=
  inferInstanceAs (Decidable (∀ file ∈ files, _))

instance (v : Snapshot) : Decidable (Complete m s v) :=
  decidable_of_iff (HoldsOnly m s v.files ∧ HoldsAll m s v.files ∧
      s.objects.get? (objectKey m completeMarker) = some [])
    ⟨fun h => ⟨h.1, h.2.1, h.2.2⟩, fun h => ⟨h.only, h.all, h.marker⟩⟩

instance (v : Snapshot) : Decidable (Fresh m s v) :=
  decidable_of_iff (HoldsOnly m s v.files ∧ (marked m s = true → Complete m s v) ∧
      ∀ file ∈ v.files, file.1 ≠ completeMarker)
    ⟨fun h => ⟨h.1, h.2.1, h.2.2⟩, fun h => ⟨h.only, h.marker, h.unnamed⟩⟩

/-- The update says that the model is in the object store. -/
def SyncUpdate.finds (m : String) : SyncUpdate → Bool
  | .present id _ _ => id = m
  | .missing _ => false

theorem finds_iff {updates : List SyncUpdate} :
    updates.any (SyncUpdate.finds m) = true ↔ ∃ uri size, .present m uri size ∈ updates := by
  rw [List.any_eq_true]
  constructor
  · rintro ⟨update, hmem, hfinds⟩
    cases update with
    | present id uri size =>
        obtain rfl : id = m := by simpa [SyncUpdate.finds] using hfinds
        exact ⟨uri, size, hmem⟩
    | missing id => cases hfinds
  · rintro ⟨uri, size, hmem⟩
    exact ⟨_, hmem, by simp [SyncUpdate.finds]⟩

instance (updates : List SyncUpdate) : Decidable (∃ uri size, .present m uri size ∈ updates) :=
  decidable_of_iff _ finds_iff

instance (outcome : Except String Snapshot) (P : Snapshot → Prop) [DecidablePred P] :
    Decidable (∀ snapshot, outcome = .ok snapshot → P snapshot) :=
  match outcome with
  | .ok snapshot => decidable_of_iff (P snapshot) (by simp)
  | .error _ => isTrue (fun _ h => nomatch h)

instance (pool : RegistryPool) (i : Nat) : ∀ r, Decidable (Keeps m pool i r)
  | .snapshotDownload id repo =>
      inferInstanceAs (Decidable (id = m → ∀ snapshot, pool.store.hub repo = .ok snapshot →
        Fresh m pool.store snapshot ∧ ∀ t ∈ pool.threads.eraseIdx i, storing m t = false))
  | .setReady id _ _ =>
      inferInstanceAs
        (Decidable (id = m → ∀ t ∈ pool.threads.eraseIdx i, downloading m t = false))
  | .commitSync updates =>
      inferInstanceAs (Decidable ((∃ uri size, .present m uri size ∈ updates) →
        marked m pool.store = true ∧ ∀ t ∈ pool.threads.eraseIdx i, downloading m t = false))
  | .deleteObjects id keys =>
      inferInstanceAs (Decidable (if id = m then
        shownReady m pool.store = false ∧
          (marked m pool.store = true → objectKey m completeMarker ∈ keys) ∧
          ∀ t ∈ pool.threads.eraseIdx i, storing m t = false
      else ∀ key ∈ keys, under m key = false))
  | .uploadFile id _ _ | .putMarker id =>
      inferInstanceAs (Decidable (id = m ∨ overlaps m id = false))
  | .selectModel _ | .selectModels | .countJobs _ | .setDownloading _ | .updateDownloadProgress _ _
  | .setFailed _ _ | .resetModel _ | .deleteModel _ | .setModelStatus _ _
  | .getModelTotalSizeBytes _ | .headMarker _ | .listObjects _ | .modelRegistered _ _
  | .jobInserted _ | .jobStatusWritten _ _ | .jobDeleted _ | .hubChanges _ _ | .s3Changes _
  | .timePasses => isTrue trivial

instance (published : Snapshot → Prop) (pool : RegistryPool) (i : Nat) :
    Decidable (Orderly m published pool (.move i)) :=
  inferInstanceAs (Decidable (∀ r ∈ pool.next? i, Keeps m pool i r))

end Decisions

section Samples

theorem voice_distinct (version : UInt8) :
    ([("config.json", [version]), ("model.bin", [version])].map (·.1)).Nodup := by
  have hnames : ([("config.json", [version]), ("model.bin", [version])].map (·.1)) =
      ["config.json", "model.bin"] := rfl
  rw [hnames]
  decide +kernel

def voiceSnapshot (version : UInt8) : Snapshot where
  files := [("config.json", [version]), ("model.bin", [version])]
  distinct := voice_distinct version

def voiceRow (status : DownloadStatus) : ModelRegistryModel where
  loadedModelId := "voice"
  source := none
  status
  downloadPath := none
  sizeBytes := none
  expectedTotalBytes := none
  downloadedBytes := none
  downloadedAt := none
  modelMetadata := []

/-- A model, and a hub that serves one version of it. -/
def voiceStore (status : DownloadStatus) (objects : Dict Body) (version : UInt8) :
    RegistryStore where
  now := 0
  models := [("voice", voiceRow status)]
  jobs := []
  objects
  hub _ := .ok (voiceSnapshot version)
  hubSize _ := none
  s3Error := none

def IsVoice (v : Snapshot) : Prop := v = voiceSnapshot 1 ∨ v = voiceSnapshot 2

theorem voice_served (status : DownloadStatus) (objects : Dict Body) :
    Serves IsVoice (voiceStore status objects 2).hub := by
  intro repo v h
  obtain rfl := Except.ok.inj h
  exact Or.inr rfl

/-- The first version with its marker. -/
def voiceObjects : Dict Body :=
  [("models/voice/config.json", [1]), ("models/voice/model.bin", [1]),
    ("models/voice/.complete", [])]

/-- A pull from its start to its end. -/
def pullTurns : List (Turn Call Request) :=
  .start (.pull "voice" false) :: List.replicate 9 (.move 0)

def pulledPool : RegistryPool :=
  (Pool.idle (voiceStore .notDownloaded [] 2)).turns (Call.code "bucket") pullTurns

/-- A forced pull of the second version fails after one file, and then a sync runs. -/
def mixedTurns : List (Turn Call Request) :=
  .start (.pull "voice" true) :: List.replicate 6 (.move 0) ++
    .outside (.s3Changes (some "unavailable")) :: List.replicate 3 (.move 0) ++
    .outside (.s3Changes none) :: .start .sync :: List.replicate 5 (.move 0)

def mixedPool : RegistryPool :=
  (Pool.idle (voiceStore .ready voiceObjects 2)).turns (Call.code "bucket") mixedTurns

end Samples

theorem registry_agrees_sample :
    shownReady "voice" pulledPool.store = true ∧ Agrees "voice" IsVoice pulledPool.store := by
  have hstart : Consistent "voice" IsVoice (voiceStore .notDownloaded [] 2) := by
    refine ⟨voice_served _ _, ?_, ?_, Or.inl (by decide +kernel)⟩
    · exact fun hmarked => absurd hmarked (by decide +kernel)
    · exact fun hready => absurd hready (by decide +kernel)
  have hallowed : Pool.Allowed (Call.code "bucket") (Orderly "voice" IsVoice)
      (Pool.idle (voiceStore .notDownloaded [] 2)) pullTurns := by
    refine ⟨trivial, ?_, ?_, ?_, ?_, ?_, ?_, ?_, ?_, ?_, trivial⟩ <;> decide +kernel
  refine ⟨by decide +kernel, ?_⟩
  exact (registry_agrees hstart (Pool.run_of_allowed hallowed)).1

/-- A forced pull that fails leaves the files of two snapshots beside the old marker, and a
sync then shows the model as ready. -/
theorem registry_disagrees :
    ¬ ∀ (m bucket : String) (published : Snapshot → Prop) (start : RegistryStore)
      (pool : RegistryPool), Consistent m published start →
        Pool.Run (Call.code bucket) (AnyCalls published) (Pool.idle start) pool →
          Agrees m published pool.store ∧
            ∀ t ∈ pool.threads, downloading m t = true → shownReady m pool.store = false := by
  intro hclaim
  have hstart : Consistent "voice" IsVoice (voiceStore .ready voiceObjects 2) := by
    have hcomplete : Complete "voice" (voiceStore .ready voiceObjects 2) (voiceSnapshot 1) := by
      decide +kernel
    refine ⟨voice_served _ _, fun _ => ⟨_, Or.inl rfl, hcomplete⟩, fun _ => ?_, ?_⟩
    · decide +kernel
    · exact Or.inr ⟨_, Or.inl rfl, hcomplete.only⟩
  have hallowed : Pool.Allowed (Call.code "bucket") (AnyCalls IsVoice)
      (Pool.idle (voiceStore .ready voiceObjects 2)) mixedTurns := by
    simp [mixedTurns, Pool.Allowed, AnyCalls, Outside, Request.fromOutside]
  have hready : shownReady "voice" mixedPool.store = true := by decide +kernel
  have hfirst : ¬ Complete "voice" mixedPool.store (voiceSnapshot 1) := by decide +kernel
  have hsecond : ¬ Complete "voice" mixedPool.store (voiceSnapshot 2) := by decide +kernel
  have hagrees := (hclaim _ _ _ _ _ hstart (Pool.run_of_allowed hallowed)).1
  obtain ⟨v, rfl | rfl, hcomplete⟩ := hagrees.ready hready
  · exact hfirst hcomplete
  · exact hsecond hcomplete

end Dalston.Gateway.Models
