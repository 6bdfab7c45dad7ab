import Dalston.Gateway.ModelRegistry

/-!
# Removal of models that jobs use

A removal counts the jobs that use the model once, and then deletes every object
under the model's prefix. The count looks for the statuses `pending` and
`processing`, of which a job never has the second, and jobs go on being created
while the objects are deleted. Where the count sees every job that needs one of
the objects, and no such job appears before the last of them is deleted, no
removal takes a file from a job that is not over.

## Implementation notes

A prefix ends with a slash, and so does a model id that another id extends by a
path. The objects under the prefix of the shorter id are then also those of the
longer one, so what a removal must spare is stated for keys and not for ids.
-/

namespace Dalston.Gateway.Models

open Foundation Model

def selectorText : Json → Option String
  | .str s => some s
  | _ => none

/-- The models that the selectors of a job name. -/
def namedModels (job : JobModel) : List String :=
  activeModelSelectorKeys.filterMap fun key => (job.parameters.get? key).bind selectorText

/-- The key is that of a file of a model that an unfinished job names. -/
def Needed (s : RegistryStore) (key : String) : Prop :=
  ∃ job ∈ s.jobs, job.status.terminal = false ∧ ∃ m ∈ namedModels job, under m key = true

instance (s : RegistryStore) (key : String) : Decidable (Needed s key) :=
  inferInstanceAs (Decidable (∃ job ∈ s.jobs, _ ∧ ∃ m ∈ namedModels job, _))

/-- The job needs no object under the prefix of the model. -/
def Spared (m : String) (job : JobModel) : Prop :=
  job.status.terminal = false → ∀ m' ∈ namedModels job, overlaps m m' = false

instance (m : String) (job : JobModel) : Decidable (Spared m job) :=
  inferInstanceAs (Decidable (_ → ∀ m' ∈ namedModels job, _))

/-- The in-use check counts the job if it needs an object under the prefix of the model. -/
def Seen (m : String) (job : JobModel) : Prop :=
  Spared m job ∨ job.status = .pending ∧ names m job = true

instance (m : String) (job : JobModel) : Decidable (Seen m job) :=
  inferInstanceAs (Decidable (_ ∨ _))

/-- A check that counts no job has found every job spared. -/
theorem spared_of_unused {m : String} {jobs : List JobModel} (h : checkModelInUse jobs m = 0)
    (hseen : ∀ job ∈ jobs, Seen m job) : ∀ job ∈ jobs, Spared m job := by
  intro job hjob
  rcases hseen job hjob with hspared | ⟨hpending, hnames⟩
  · exact hspared
  · have hcounted := List.countP_eq_zero.mp h job hjob
    simp [hpending, statusText, hnames] at hcounted

/-- The model whose objects the call is about to list or delete. -/
def deleting (t : RegistryThread) : Option String :=
  match t.call, t.rest.next? with
  | .remove m _, some (.listObjects _) | .remove m _, some (.deleteObjects _ _) => some m
  | _, _ => none

/-- Calls are made and given up in any way, and jobs come and go in any way. -/
def AnyJobs (_ : RegistryPool) : Turn Call Request → Prop
  | .start _ | .move _ | .fail _ => True
  | .outside r => r.fromOutside = true

instance (pool : RegistryPool) : ∀ turn, Decidable (AnyJobs pool turn)
  | .start _ | .move _ | .fail _ => isTrue trivial
  | .outside _ => inferInstanceAs (Decidable (_ = _))

/-- A check counts every job that matters. -/
def CountsAll (s : RegistryStore) : Request → Prop
  | .countJobs m => ∀ job ∈ s.jobs, Seen m job
  | _ => True

/-- No removal under way deletes what the job needs. -/
def SparedByAll (pool : RegistryPool) (job : JobModel) : Prop :=
  ∀ t ∈ pool.threads, ∀ m ∈ deleting t, Spared m job

/-- No job that needs an object appears before a removal has deleted it. -/
def NoNewcomer (pool : RegistryPool) : Request → Prop
  | .jobInserted job => SparedByAll pool job
  | .jobStatusWritten id status =>
      ∀ job ∈ pool.store.jobs, job.id = id → SparedByAll pool { job with status }
  | _ => True

/-- The checks count every job that matters, and no such job appears after them. -/
def Guarded (pool : RegistryPool) : Turn Call Request → Prop
  | .start _ | .fail _ => True
  | .move i => ∀ r ∈ pool.next? i, CountsAll pool.store r
  | .outside r => r.fromOutside = true ∧ NoNewcomer pool r

instance (s : RegistryStore) : ∀ r, Decidable (CountsAll s r) := by
  intro r
  cases r <;> unfold CountsAll <;> infer_instance

instance (pool : RegistryPool) (job : JobModel) : Decidable (SparedByAll pool job) :=
  inferInstanceAs (Decidable (∀ t ∈ pool.threads, ∀ m ∈ deleting t, _))

instance (pool : RegistryPool) : ∀ r, Decidable (NoNewcomer pool r) := by
  intro r
  cases r <;> unfold NoNewcomer <;> infer_instance

instance (pool : RegistryPool) : ∀ turn, Decidable (Guarded pool turn)
  | .start _ | .fail _ => isTrue trivial
  | .move i => inferInstanceAs (Decidable (∀ r ∈ pool.next? i, CountsAll pool.store r))
  | .outside _ => inferInstanceAs (Decidable (_ ∧ _))

/-- Where a removal is. -/
inductive Phase
  | looking
  /-- The model is unused, and its objects are being listed or deleted. -/
  | deleting
  | finished
  deriving DecidableEq

/-- How a removal moves. -/
inductive RemovalMove (m : String) : Phase → RegistryStore → Request → Phase → Prop
  | select (s : RegistryStore) : RemovalMove m .looking s (.selectModel m) .looking
  | unused (s : RegistryStore) (h : checkModelInUse s.jobs m = 0) :
      RemovalMove m .looking s (.countJobs m) .deleting
  | leave (s : RegistryStore) : RemovalMove m .looking s (.countJobs m) .finished
  | list (s : RegistryStore) (l : Phase) (hl : l ≠ .looking) :
      RemovalMove m .deleting s (.listObjects m) l
  | delete (s : RegistryStore) (keys : List String) (h : ∀ key ∈ keys, under m key = true)
      (l : Phase) (hl : l ≠ .looking) : RemovalMove m .deleting s (.deleteObjects m keys) l
  | reset (s : RegistryStore) : RemovalMove m .finished s (.resetModel m) .finished
  | purge (s : RegistryStore) : RemovalMove m .finished s (.deleteModel m) .finished

/-- The request neither deletes objects nor changes jobs. -/
def Request.spares : Request → Bool
  | .deleteObjects _ _ | .jobInserted _ | .jobStatusWritten _ _ | .jobDeleted _ => false
  | _ => true

def phaseMove : Call → Phase → RegistryStore → Request → Phase → Prop
  | .remove m _ => RemovalMove m
  | .startPull _ _ | .pull _ _ | .sync => fun l _ r l' => r.spares = true ∧ l' = l

def phaseStart : Call → Phase
  | .remove _ _ => .looking
  | .startPull _ _ | .pull _ _ | .sync => .finished

/-- A removal returns when it deletes nothing any more. -/
def phaseEnd (_ : Call) (_ : Reply) (l : Phase) : Prop := l ≠ .deleting

section Protocol

variable {m : String} {purge : Bool} {J : RegistryStore → Prop}

theorem follows_deleteBatches {bs : List (List String)} {l : Phase}
    (h : ∀ keys ∈ bs, ∀ key ∈ keys, under m key = true)
    (hl : l = if bs = [] then .finished else .deleting) :
    (deleteBatches m bs).Follows (RemovalMove m) J (fun _ l' => l' = .finished) l := by
  induction bs generalizing l with
  | nil => exact hl
  | cons keys rest ih =>
      obtain rfl : l = .deleting := hl
      have hkeys := h keys List.mem_cons_self
      have hrest := @ih _ (fun keys' hkeys' => h keys' (List.mem_cons_of_mem _ hkeys')) rfl
      apply Program.follows_perform_bind.mpr
      intro s _
      by_cases hup : s.s3Error = none
      · refine ⟨_, .delete s keys hkeys (if rest = [] then .finished else .deleting) ?_, ?_⟩
        · split <;> simp
        · rw [if_pos hup]
          exact hrest
      · refine ⟨.finished, .delete s keys hkeys .finished (by simp), ?_⟩
        rw [if_neg hup]
        rfl

theorem follows_deleteModelFromS3 :
    (deleteModelFromS3 m).Follows (RemovalMove m) J (fun _ l => l = .finished) .deleting := by
  apply Program.follows_perform_bind.mpr
  intro s _
  rcases s.s3Error with _ | error
  · let bs := batches (s.listing m).length (s.listing m)
    refine ⟨if bs = [] then .finished else .deleting, .list s _ ?_, ?_⟩
    · split <;> simp
    · refine follows_deleteBatches ?_ rfl
      intro keys hkeys key hkey
      have hmem : key ∈ bs.flatten := List.mem_flatten.mpr ⟨keys, hkeys, hkey⟩
      rw [flatten_batches le_rfl] at hmem
      exact under_of_mem_listing hmem
  · exact ⟨.finished, .list s _ (by simp), rfl⟩

theorem follows_removeRow :
    (removeRow m purge).Follows (RemovalMove m) J (fun _ l => l ≠ .deleting) .finished := by
  apply follows_exec.mpr
  intro s _
  have hend : Phase.finished ≠ .deleting := by decide
  cases purge with
  | true => exact ⟨.finished, .purge s, hend⟩
  | false => exact ⟨.finished, .reset s, hend⟩

theorem follows_removeDeleted (outcome : Option String) :
    (removeDeleted m purge outcome).Follows (RemovalMove m) J (fun _ l => l ≠ .deleting)
      .finished := by
  cases outcome with
  | none => exact follows_removeRow
  | some error => simp [removeDeleted]

theorem follows_removeFound (found : Option ModelRegistryModel) :
    (removeFound m purge found).Follows (RemovalMove m) J (fun _ l => l ≠ .deleting)
      .looking := by
  cases found with
  | none => simp [removeFound]
  | some model =>
      apply Program.follows_perform_bind.mpr
      intro s _
      by_cases hused : 0 < checkModelInUse s.jobs m
      · refine ⟨.finished, .leave s, ?_⟩
        rw [if_pos hused]
        simp
      · have hunused : checkModelInUse s.jobs m = 0 := Nat.eq_zero_of_not_pos hused
        rw [if_neg hused]
        by_cases hstored : inObjectStore model = true
        · refine ⟨.deleting, .unused s hunused, ?_⟩
          rw [removeUnused, if_pos hstored]
          apply Program.follows_bind.mpr
          apply Program.follows_mono follows_deleteModelFromS3
          rintro outcome l rfl
          exact follows_removeDeleted outcome
        · refine ⟨.finished, .leave s, ?_⟩
          rw [removeUnused, if_neg hstored]
          exact follows_removeRow

theorem follows_removeModel :
    (removeModel m purge).Follows (RemovalMove m) J (fun _ l => l ≠ .deleting) .looking := by
  apply Program.follows_perform_bind.mpr
  intro s _
  exact ⟨.looking, .select s, follows_removeFound _⟩

end Protocol

theorem spares_of_performs {c : Call} {r : Request} (h : c.performs r)
    (hc : ∀ m purge, c ≠ .remove m purge) : r.spares = true := by
  cases c with
  | remove m purge => exact absurd rfl (hc m purge)
  | startPull | pull | sync =>
      cases r with
      | deleteObjects | jobInserted | jobStatusWritten | jobDeleted => cases h
      | _ => rfl

theorem follows_phases (bucket : String) {J : RegistryStore → Prop} (c : Call) :
    (c.code bucket).Follows (phaseMove c) J (phaseEnd c) (phaseStart c) := by
  have hquiet : (∀ m purge, c ≠ .remove m purge) →
      (c.code bucket).Follows (fun (l : Phase) _ r l' => r.spares = true ∧ l' = l) J
        (fun _ l => l ≠ .deleting) Phase.finished := by
    intro hc
    refine Program.follows_of_only (within_code bucket c) (fun _ r hr => ?_) (by simp)
    exact ⟨spares_of_performs hr hc, rfl⟩
  cases c with
  | remove m purge => exact follows_removeModel
  | startPull | pull | sync =>
      apply hquiet
      intro m purge h
      cases h

/-- The request deletes the object. -/
def Request.deletes (key : String) : Request → Bool
  | .deleteObjects _ keys => keys.contains key
  | _ => false

/-- A call that is about to delete an object is a removal of a model the object belongs to. -/
theorem deletes_of_matches {t : RegistryThread} {g : Local Call RegistryStore Phase}
    (h : t.Matches phaseMove (fun _ => True) phaseEnd g) {s : RegistryStore} {r : Request}
    (hnext : t.rest.next? = some r) {key : String} (hkey : r.deletes key = true) :
    ∃ m purge, g.call = .remove m purge ∧ g.state = .deleting ∧ under m key = true := by
  obtain ⟨l, hmove⟩ := Program.follows_next h.follows (s := s) trivial hnext
  have hspares : r.spares = false := by
    cases r <;> first | rfl | cases hkey
  cases hcall : g.call with
  | remove m purge =>
      rw [hcall] at hmove
      generalize hstate : g.state = l₀ at hmove
      cases hmove with
      | delete _ _ hunder =>
          exact ⟨m, purge, rfl, rfl, hunder key (List.contains_iff_mem.mp hkey)⟩
      | _ => cases hkey
  | startPull | pull | sync =>
      rw [hcall] at hmove
      exact absurd hmove.1 (by simp [hspares])

section Runs

variable {bucket : String}

/-- No job needs what a removal is deleting. -/
def Clear (s : Shared Call Request RegistryStore Reply)
    (gs : Multiset (Local Call RegistryStore Phase)) : Prop :=
  ∀ g ∈ gs, ∀ m purge, g.call = .remove m purge → g.state = .deleting →
    ∀ job ∈ s.store.jobs, Spared m job

/-- A removal that is deleting lists or deletes next. -/
theorem deleting_of_matches {t : RegistryThread} {g : Local Call RegistryStore Phase}
    {s : RegistryStore} {m : String} {purge : Bool}
    (h : t.Matches phaseMove (fun _ => True) phaseEnd g) (hcall : g.call = .remove m purge)
    (hstate : g.state = .deleting) : deleting t = some m := by
  obtain ⟨hsame, _, hfollows⟩ := h
  rw [hcall] at hsame hfollows
  rw [hstate] at hfollows
  cases hnext : t.rest.next? with
  | none =>
      obtain ⟨a, hend⟩ := Program.follows_end hfollows hnext
      exact absurd rfl hend
  | some r =>
      obtain ⟨l, hmove⟩ := Program.follows_next hfollows (s := s) trivial hnext
      cases hmove <;> simp [deleting, hsame, hnext]

theorem jobs_of_spares {r : Request} (h : r.spares = true) (s : RegistryStore) :
    (apply r s).jobs = s.jobs := by
  cases r with
  | uploadFile | putMarker => exact RegistryStore.onObjects_jobs s _
  | modelRegistered m model =>
      simp only [apply, Request.apply]
      split <;> rfl
  | _ => first | rfl | cases h

theorem jobs_of_removalMove {m : String} {l l' : Phase} {s s' : RegistryStore} {r : Request}
    (h : RemovalMove m l s r l') : (apply r s').jobs = s'.jobs := by
  cases h with
  | delete => exact RegistryStore.onObjects_jobs s' _
  | select | unused | leave | list | reset | purge => rfl

theorem jobs_of_phaseMove {c : Call} {l l' : Phase} {s : RegistryStore} {r : Request}
    (h : phaseMove c l s r l') : (apply r s).jobs = s.jobs := by
  cases c with
  | remove m purge => exact jobs_of_removalMove h
  | startPull | pull | sync => exact jobs_of_spares h.1 s

/-- The jobs after something happened outside: they are spared wherever they were before. -/
theorem spared_outside {pool : RegistryPool} {r : Request} (hok : Guarded pool (.outside r))
    {t : RegistryThread} (ht : t ∈ pool.threads) {m : String} (hm : deleting t = some m)
    (h : ∀ job ∈ pool.store.jobs, Spared m job) :
    ∀ job ∈ (apply r pool.store).jobs, Spared m job := by
  obtain ⟨houtside, hnew⟩ := hok
  intro job hjob
  cases r with
  | jobInserted new =>
      rcases List.mem_append.mp hjob with hold | hsame
      · exact h job hold
      · rw [List.mem_singleton.mp hsame]
        exact hnew t ht m hm
  | jobStatusWritten id status =>
      obtain ⟨old, hold, rfl⟩ := List.mem_map.mp hjob
      by_cases hid : old.id = id
      · rw [if_pos hid]
        exact hnew old hold hid t ht m hm
      · rw [if_neg hid]
        exact h old hold
  | jobDeleted id => exact h job (List.mem_filter.mp hjob).1
  | modelRegistered id model =>
      have hsame : (apply (Request.modelRegistered id model) pool.store).jobs = pool.store.jobs :=
        jobs_of_spares rfl _
      exact h job (hsame ▸ hjob)
  | hubChanges | s3Changes | timePasses => exact h job hjob
  | _ => cases houtside

theorem clear_preserved :
    Preserved (Call.code bucket) phaseMove (fun _ => True) phaseEnd phaseStart Guarded Clear := by
  constructor
  case code =>
    intro pool c _
    exact follows_phases bucket c
  case store =>
    intro s gs _
    trivial
  case start =>
    intro pool gs c _ h _ g hg m purge hcall hstate
    rcases Multiset.mem_cons.mp hg with rfl | hg
    · have hlooking : phaseStart c = .deleting := hstate
      cases c <;> cases hlooking
    · exact h g hg m purge hcall hstate
  case move =>
    intro pool g gs i r l h hok hnext _ hmove g' hg' m purge hcall hstate job hjob
    have hjobs : (pool.toShared.perform r).store.jobs = pool.store.jobs := jobs_of_phaseMove hmove
    rw [hjobs] at hjob
    rcases Multiset.mem_cons.mp hg' with rfl | hg'
    · have hremove : g.call = .remove m purge := hcall
      have hdeleting : l = .deleting := hstate
      rw [hremove, hdeleting] at hmove
      -- the removal has just passed its check, or was deleting before
      rcases hphase : g.state with _ | _ | _ <;> rw [hphase] at hmove
      · cases hmove with
        | unused _ hunused => exact spared_of_unused hunused (hok _ hnext) job hjob
      · exact h g (Multiset.mem_cons_self g gs) m purge hremove hphase job hjob
      · cases hmove
    · exact h g' (Multiset.mem_cons_of_mem hg') m purge hcall hstate job hjob
  case done =>
    intro pool g gs a h _ g' hg'
    exact h g' (Multiset.mem_cons_of_mem hg')
  case fail =>
    intro pool t g gs i h _ _ _ g' hg'
    exact h g' (Multiset.mem_cons_of_mem hg')
  case outside =>
    intro pool gs r hm h hok g hg m purge hcall hstate
    obtain ⟨t, ht, hmatch⟩ := hm.exists_thread hg
    have hdeleting := deleting_of_matches (s := pool.store) hmatch hcall hstate
    exact spared_outside hok ht hdeleting (h g hg m purge hcall hstate)

/-- In every run no removal deletes an object that an unfinished job needs, when the checks
count every job that matters and no such job appears after them. -/
theorem removal_spares_jobs {start : RegistryStore} {pool : RegistryPool}
    (run : Pool.Run (Call.code bucket) Guarded (Pool.idle start) pool) {i : Nat} {r : Request}
    (h : pool.next? i = some r) {key : String} (hkey : r.deletes key = true) :
    ¬ Needed pool.store key := by
  have hstart : Clear (Pool.idle start : RegistryPool).toShared 0 := by
    intro g hg
    exact absurd hg (Multiset.notMem_zero g)
  obtain ⟨gs, hm, hclear⟩ := clear_preserved.run run ⟨0, Pool.matches_idle _, hstart⟩
  obtain ⟨t, ht, hnext⟩ := Option.bind_eq_some_iff.mp h
  obtain ⟨g, rest, rfl, hmatch, _⟩ := hm.split ht
  obtain ⟨m, purge, hcall, hstate, hunder⟩ := deletes_of_matches hmatch hnext hkey (s := pool.store)
  rintro ⟨job, hjob, hopen, m', hnamed, hunder'⟩
  have hspared := hclear g (Multiset.mem_cons_self g rest) m purge hcall hstate job hjob
  have hoverlap := overlaps_of_under hunder hunder'
  rw [hspared hopen m' hnamed] at hoverlap
  cases hoverlap

end Runs

section Samples

def whisperRow : ModelRegistryModel where
  loadedModelId := "base"
  source := some "org/whisper"
  status := .ready
  downloadPath := some "s3://bucket/models/org/whisper/"
  sizeBytes := some 1
  expectedTotalBytes := some 1
  downloadedBytes := some 1
  downloadedAt := some 0
  modelMetadata := []

def whisperJob (status : JobStatus) : JobModel where
  id := 1
  status
  parameters := [("model_transcribe", .str "org/whisper")]
  error := none
  startedAt := none
  completedAt := none
  audioFormat := none
  audioDuration := none
  audioSampleRate := none
  audioChannels := none
  audioBitDepth := none
  piiEntitiesDetected := none
  piiRedactedAudioUri := none

/-- A stored model and one job that names it. -/
def whisperStore (status : JobStatus) : RegistryStore where
  now := 0
  models := [("org/whisper", whisperRow)]
  jobs := [whisperJob status]
  objects := [("models/org/whisper/model.bin", [1]), ("models/org/whisper/.complete", [])]
  hub _ := .error "not found"
  hubSize _ := none
  s3Error := none

/-- A removal up to its first request to delete objects. -/
def removalTurns : List (Turn Call Request) :=
  .start (.remove "org/whisper" false) :: List.replicate 3 (.move 0)

def removalPool (status : JobStatus) : RegistryPool :=
  (Pool.idle (whisperStore status)).turns (Call.code "bucket") removalTurns

end Samples

theorem removal_spares_jobs_sample :
    (∃ r ∈ (removalPool .completed).next? 0, r.deletes "models/org/whisper/model.bin" = true) ∧
      ¬ Needed (removalPool .completed).store "models/org/whisper/model.bin" := by
  have hallowed : Pool.Allowed (Call.code "bucket") Guarded (Pool.idle (whisperStore .completed))
      removalTurns := by
    decide +kernel
  have hdeletes : ∃ r ∈ (removalPool .completed).next? 0,
      r.deletes "models/org/whisper/model.bin" = true := by
    decide +kernel
  refine ⟨hdeletes, ?_⟩
  obtain ⟨r, hr, hkey⟩ := hdeletes
  exact removal_spares_jobs (Pool.run_of_allowed hallowed) hr hkey

/-- The files of a model are deleted while a job runs with it. -/
theorem removal_takes_files :
    ¬ ∀ (bucket : String) (start : RegistryStore) (pool : RegistryPool),
      Pool.Run (Call.code bucket) AnyJobs (Pool.idle start) pool →
        ∀ (i : Nat) (r : Request), pool.next? i = some r →
          ∀ key, r.deletes key = true → ¬ Needed pool.store key := by
  intro hclaim
  have hallowed : Pool.Allowed (Call.code "bucket") AnyJobs (Pool.idle (whisperStore .running))
      removalTurns := by
    decide +kernel
  obtain ⟨r, hr, hkey⟩ : ∃ r ∈ (removalPool .running).next? 0,
      r.deletes "models/org/whisper/model.bin" = true := by
    decide +kernel
  have hneeded : Needed (removalPool .running).store "models/org/whisper/model.bin" := by
    decide +kernel
  exact hclaim _ _ _ (Pool.run_of_allowed hallowed) 0 r hr _ hkey hneeded

end Dalston.Gateway.Models
