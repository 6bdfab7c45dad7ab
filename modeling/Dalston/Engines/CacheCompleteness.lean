import Dalston.Engines.ModelCache

/-!
# What a marked directory of the model cache holds

A download is complete when the prefix is that of a finished upload while it is
listed and stays the same until the last file is downloaded. A complete
directory stays complete when no removal comes upon it. In runs that keep to
this, with model ids that have directories of their own, every directory with a
marker holds the files of one uploaded snapshot, and so does every directory
that a call returns.
-/

namespace Dalston.Engines.ModelCache

open Foundation
open Gateway.Models (Body Snapshot completeMarker modelPrefix objectKey under)

section Keys

variable {m relative key : String} {s : CacheStore}

theorem under_objectKey (m relative : String) : under m (objectKey m relative) = true := by
  rw [under, List.isPrefixOf_iff_prefix, objectKey, String.toList_append]
  exact List.prefix_append _ _

@[simp] theorem relativePath_objectKey (m relative : String) :
    relativePath m (objectKey m relative) = relative := by
  simp [relativePath, objectKey, String.toList_append]

theorem objectKey_relativePath (h : under m key = true) :
    objectKey m (relativePath m key) = key := by
  rw [under, List.isPrefixOf_iff_prefix] at h
  obtain ⟨rest, hrest⟩ := h
  rw [← String.toList_inj, objectKey, String.toList_append, relativePath, ← hrest]
  simp

theorem mem_listing : key ∈ s.listing m ↔ (s.objects.get? key).isSome ∧ under m key = true := by
  have hkeys : key ∈ s.objects.map (·.1) ↔ (s.objects.get? key).isSome := by
    rw [List.mem_map, ← Dict.contains, Dict.contains_iff]
  rw [CacheStore.listing, List.mem_insertionSort, List.mem_filter, hkeys]

/-- A file that a download takes up when it is listed. -/
def Ordinary (relative : String) : Prop :=
  relative ≠ "" ∧ relative ≠ completeMarker ∧ traverses relative = false

theorem mem_filesToDownload :
    relative ∈ s.filesToDownload m ↔
      (s.objects.get? (objectKey m relative)).isSome ∧ Ordinary relative := by
  simp only [CacheStore.filesToDownload, List.mem_filter, List.mem_map, mem_listing, Ordinary,
    Bool.and_eq_true, decide_eq_true_eq, Bool.not_eq_true', and_assoc]
  refine and_congr_left fun _ => ?_
  constructor
  · rintro ⟨key, hkey, hunder, rfl⟩
    rwa [objectKey_relativePath hunder]
  · intro h
    exact ⟨objectKey m relative, h, under_objectKey m relative, relativePath_objectKey m relative⟩

end Keys

section Directories

variable {s : CacheStore} {e : CacheEffect} {d d' : CacheDir} {o : Option CacheDir}
  {snapshot : Snapshot}

/-- What an effect makes of the directory of its model. -/
def CacheEffect.newDir : CacheEffect → Option CacheDir → Option CacheDir
  | unlink _ entry, some d => some ⟨d.files.erase entry, d.moved.erase entry⟩
  | removeDir _, some ⟨[], []⟩ => none
  | moveTemp _ _ files, none => some ⟨files, []⟩
  | moveTemp _ tempName files, some d => some { d with moved := d.moved.set tempName files }
  | touchAccessMarker _ time, some d => some { d with files := d.files.set accessMarker time }
  | _, o => o

theorem get?_dirs_setDir (m name : String) :
    (s.setDir m d).dirs.get? name = if safeId m = name then some d else s.dirs.get? name :=
  Dict.get?_set _ _ _ _

theorem apply_unlink {entry : String} :
    (CacheEffect.unlink m entry).apply s =
      (s.dir? m).elim s fun d => s.setDir m ⟨d.files.erase entry, d.moved.erase entry⟩ := by
  rw [CacheEffect.apply]
  cases s.dir? m <;> rfl

theorem apply_touchAccessMarker {time : Body} :
    (CacheEffect.touchAccessMarker m time).apply s =
      (s.dir? m).elim s fun d => s.setDir m { d with files := d.files.set accessMarker time } := by
  rw [CacheEffect.apply]
  cases s.dir? m <;> rfl

/-- An effect changes the directory of its model alone. -/
theorem get?_dirs_apply (e : CacheEffect) (s : CacheStore) (name : String) :
    (e.apply s).dirs.get? name =
      if safeId e.modelId = name then e.newDir (s.dir? e.modelId) else s.dirs.get? name := by
  have hsame : ∀ m o, s.dir? m = o →
      s.dirs.get? name = if safeId m = name then o else s.dirs.get? name := by
    rintro m o rfl
    split
    · rename_i hname
      rw [CacheStore.dir?, hname]
    · rfl
  cases e with
  | uploadFile m | putMarker m | checkCached m | listObjects m | downloadFile m | checkTarget m
  | scanTarget m => exact hsame m _ rfl
  | unlink m entry =>
      rw [apply_unlink, CacheEffect.modelId]
      cases hdir : s.dir? m with
      | none => exact hsame m none hdir
      | some d => exact get?_dirs_setDir m name
  | moveTemp m tempName files =>
      simp only [CacheEffect.apply, CacheEffect.modelId]
      cases hdir : s.dir? m <;> exact get?_dirs_setDir m name
  | touchAccessMarker m time =>
      rw [apply_touchAccessMarker, CacheEffect.modelId]
      cases hdir : s.dir? m with
      | none => exact hsame m none hdir
      | some d => exact get?_dirs_setDir m name
  | removeDir m =>
      simp only [CacheEffect.apply, CacheEffect.modelId]
      rcases hdir : s.dir? m with _ | ⟨_ | ⟨file, files⟩, _ | ⟨inner, moved⟩⟩
      · exact hsame m _ hdir
      · exact Dict.get?_erase _ _ _
      all_goals exact hsame m _ hdir

/-- The directories hold the same files, but for the marker of the last access. -/
def SameFiles (d d' : CacheDir) : Prop :=
  ∀ relative, relative ≠ accessMarker → d'.files.get? relative = d.files.get? relative

/-- At its top level the directory holds the files of the snapshot, next to the markers. -/
def CacheDir.Shows (d : CacheDir) (snapshot : Snapshot) : Prop :=
  ∀ relative, relative ≠ completeMarker → relative ≠ accessMarker →
    d.files.get? relative = snapshot.files.get? relative

theorem completeMarker_ne : completeMarker ≠ accessMarker := by decide

theorem SameFiles.complete (h : SameFiles d d') : d'.complete = d.complete := by
  rw [CacheDir.complete, CacheDir.complete, Dict.contains, Dict.contains, h _ completeMarker_ne]

theorem SameFiles.shows (h : SameFiles d d') (hd : d.Shows snapshot) : d'.Shows snapshot :=
  fun relative hmarker haccess => (h relative haccess).trans (hd relative hmarker haccess)

/-- An entry is removed from a directory without a marker only. -/
def SparesComplete (s : CacheStore) (e : CacheEffect) : Prop :=
  ∀ m entry, e = .unlink m entry → ∀ d, s.dir? m = some d → d.complete = false

theorem complete_of_erase {entry : String} {moved : Dict (Dict Body)}
    (h : CacheDir.complete ⟨d.files.erase entry, moved⟩ = true) : d.complete = true := by
  simp only [CacheDir.complete, Dict.contains, Dict.get?_erase] at h ⊢
  split at h
  · cases h
  · exact h

/-- A complete directory keeps its files. -/
theorem newDir_of_complete (hspares : SparesComplete s e) (hdir : s.dir? e.modelId = some d)
    (hd : d.complete = true) : ∃ d', e.newDir (some d) = some d' ∧ SameFiles d d' := by
  cases e with
  | unlink m entry =>
      have hnot := hspares m entry rfl d hdir
      rw [hd] at hnot
      cases hnot
  | moveTemp m tempName files => exact ⟨_, rfl, fun _ _ => rfl⟩
  | touchAccessMarker m time =>
      exact ⟨_, rfl, fun relative haccess => Dict.get?_set_ne _ _ haccess.symm⟩
  | removeDir m =>
      obtain ⟨files, moved⟩ := d
      cases files with
      | nil => cases hd
      | cons file files => exact ⟨_, rfl, fun _ _ => rfl⟩
  | _ => exact ⟨_, rfl, fun _ _ => rfl⟩

/-- A directory is an old one, or it was moved where there was none. -/
theorem source_of_newDir (hspares : SparesComplete s e)
    (h : e.newDir (s.dir? e.modelId) = some d') :
    (∃ d, s.dir? e.modelId = some d ∧ (d'.complete = true → d.complete = true ∧ SameFiles d d')) ∨
      (s.dir? e.modelId = none ∧
        ∃ m tempName files, e = .moveTemp m tempName files ∧ d' = ⟨files, []⟩) := by
  cases hdir : s.dir? e.modelId with
  | none =>
      rw [hdir] at h
      cases e with
      | moveTemp m tempName files =>
          obtain rfl := Option.some.inj h
          exact Or.inr ⟨rfl, m, tempName, files, rfl, rfl⟩
      | _ => cases h
  | some d =>
      refine Or.inl ⟨d, rfl, fun hcomplete => ?_⟩
      have hd : d.complete = true := by
        rw [hdir] at h
        cases e with
        | unlink m entry =>
            obtain rfl := Option.some.inj h
            exact complete_of_erase hcomplete
        | touchAccessMarker m time =>
            obtain rfl := Option.some.inj h
            have hsame : SameFiles d { d with files := d.files.set accessMarker time } :=
              fun relative haccess => Dict.get?_set_ne _ _ haccess.symm
            rwa [hsame.complete] at hcomplete
        | removeDir m =>
            obtain ⟨_ | ⟨file, files⟩, _ | ⟨inner, moved⟩⟩ := d <;> cases h <;> exact hcomplete
        | _ =>
            obtain rfl := Option.some.inj h
            exact hcomplete
      obtain ⟨d'', hnew, hsame⟩ := newDir_of_complete hspares hdir hd
      rw [hdir, hnew] at h
      obtain rfl := Option.some.inj h
      exact ⟨hd, hsame⟩

end Directories

/-- What a call knows: the store it has listed the prefix of a model in, the stores it has
downloaded files in, that nothing is in the way of a model, and that a model is present. -/
structure Known where
  listed : Option (String × CacheStore) := none
  fetched : List (String × CacheStore) := []
  cleared : Option String := none
  present : Option String := none

def learn (k : Known) (e : CacheEffect) (s : CacheStore) : Known :=
  match e with
  | .listObjects m => { k with listed := some (m, s) }
  | .downloadFile _ relative => { k with fetched := (relative, s) :: k.fetched }
  | .checkCached m => if s.isCachedLocally m then { k with present := some m } else k
  | .checkTarget m => if (s.dir? m).isSome then k else { k with cleared := some m }
  | .removeDir m =>
      if (s.dir? m).any (·.entries.isEmpty) then { k with cleared := some m } else k
  | .moveTemp m .. => { k with present := some m }
  | _ => k

/-- The files are those that were listed, each as it was when it was downloaded. -/
structure Downloaded (k : Known) (m : String) (listed : CacheStore) (temp : Dict Body) : Prop where
  fetched : ∀ relative body, temp.get? relative = some body →
    relative ∈ listed.filesToDownload m ∧
      ∃ s, (relative, s) ∈ k.fetched ∧ s.objects.get? (objectKey m relative) = some body
  all : ∀ relative ∈ listed.filesToDownload m, (temp.get? relative).isSome

/-- A file is downloaded after it was listed, and what is moved was downloaded. -/
def ByKnown (k : Known) : CacheEffect → Prop
  | .listObjects _ => k.fetched = []
  | .downloadFile m _ => ∃ s, k.listed = some (m, s)
  | .moveTemp m _ files => k.cleared = some m ∧ ∃ s temp, k.listed = some (m, s) ∧
      Downloaded k m s temp ∧ files = temp.set completeMarker []
  | _ => True

/-- A path that a call returns is that of a model it knows to be present. -/
def Returns (call : CacheCall) (reply : CacheReply) (k : Known) : Prop :=
  ∀ name, reply = .path name →
    ∃ m order tempName time, call = .ensureLocal m order tempName time ∧ name = safeId m ∧
      k.present = some m

section Heeding

variable {m : String} {k : Known}

theorem heeds_uploadFiles {Q : Unit → Known → Prop} (files : Dict Body) (hQ : Q () k) :
    (uploadFiles m files).Heeds learn ByKnown Q k := by
  induction files with
  | nil => exact hQ
  | cons file files ih => exact ⟨trivial, fun _ => ih⟩

/-- The downloads so far and the files that are left. -/
structure Downloading (k : Known) (m : String) (listed : CacheStore) (rest : List String)
    (temp : Dict Body) : Prop where
  listing : k.listed = some (m, listed)
  left : ∀ relative ∈ rest, relative ∈ listed.filesToDownload m
  fetched : ∀ relative body, temp.get? relative = some body →
    relative ∈ listed.filesToDownload m ∧
      ∃ s, (relative, s) ∈ k.fetched ∧ s.objects.get? (objectKey m relative) = some body
  all : ∀ relative ∈ listed.filesToDownload m, relative ∈ rest ∨ (temp.get? relative).isSome

theorem Downloading.next {listed s : CacheStore} {relative : String} {rest : List String}
    {temp : Dict Body} {body : Body} (h : Downloading k m listed (relative :: rest) temp)
    (hbody : s.objects.get? (objectKey m relative) = some body) :
    Downloading (learn k (.downloadFile m relative) s) m listed rest (temp.set relative body) := by
  refine ⟨h.listing, fun r hr => h.left r (List.mem_cons_of_mem _ hr), fun r b hb => ?_,
    fun r hr => ?_⟩
  · rw [Dict.get?_set] at hb
    split at hb
    · rename_i heq
      subst heq
      obtain rfl := Option.some.inj hb
      exact ⟨h.left relative List.mem_cons_self, s, List.mem_cons_self, hbody⟩
    · obtain ⟨hlisted, s', hs', hbody'⟩ := h.fetched r b hb
      exact ⟨hlisted, s', List.mem_cons_of_mem _ hs', hbody'⟩
  · rw [Dict.get?_set]
    split
    · exact Or.inr rfl
    · rename_i hne
      rcases h.all r hr with hmem | hsome
      · rcases List.mem_cons.mp hmem with rfl | hmem
        · exact absurd rfl hne
        · exact Or.inl hmem
      · exact Or.inr hsome

theorem heeds_downloadFiles {listed : CacheStore} (rest : List String) {temp : Dict Body}
    {k : Known} (h : Downloading k m listed rest temp) :
    (downloadFiles m rest temp).Heeds learn ByKnown
      (fun r k' => ∀ temp', r = some temp' → Downloading k' m listed [] temp') k := by
  induction rest generalizing temp k with
  | nil =>
      rintro temp' heq
      obtain rfl := Option.some.inj heq
      exact h
  | cons relative rest ih =>
      refine Program.heeds_perform_bind.mpr ⟨⟨listed, h.listing⟩, fun s => ?_⟩
      split
      · exact fun _ heq => nomatch heq
      · rename_i body hbody
        exact ih (h.next hbody)

/-- A removal and its checks teach a call only that nothing is in the way. -/
def OnlyCleared (k k' : Known) : Prop := k'.listed = k.listed ∧ k'.fetched = k.fetched

theorem heeds_unlinkAll (entries : List String) :
    (unlinkAll m entries).Heeds learn ByKnown (fun _ k' => k' = k) k := by
  induction entries with
  | nil => rfl
  | cons entry entries ih =>
      refine Program.heeds_perform_bind.mpr ⟨trivial, fun s => ?_⟩
      split
      · exact ih
      · rfl

theorem heeds_removeTree (order : List String → List String) :
    (removeTree m order).Heeds learn ByKnown
      (fun r k' => OnlyCleared k k' ∧ (r = true → k'.cleared = some m)) k := by
  refine Program.heeds_perform_bind.mpr ⟨trivial, fun s => ?_⟩
  split
  · exact ⟨⟨rfl, rfl⟩, by simp⟩
  rename_i d hdir
  refine Program.heeds_bind.mpr (Program.heeds_mono (heeds_unlinkAll _) ?_)
  rintro r k' rfl
  split
  · refine Program.heeds_perform_bind.mpr ⟨trivial, fun s' => ?_⟩
    by_cases hempty : (s'.dir? m).any (·.entries.isEmpty) = true
    · exact ⟨by simp [OnlyCleared, learn, hempty], by simp [learn, hempty]⟩
    · exact ⟨by simp [OnlyCleared, learn, hempty], fun h => absurd h hempty⟩
  · exact ⟨⟨rfl, rfl⟩, by simp⟩

theorem heeds_clearTarget (order : List String → List String) :
    (clearTarget m order).Heeds learn ByKnown
      (fun r k' => OnlyCleared k k' ∧ (r = true → k'.cleared = some m)) k := by
  refine Program.heeds_perform_bind.mpr ⟨trivial, fun s => ?_⟩
  by_cases hdir : (s.dir? m).isSome = true
  · simp only [hdir, if_true, learn]
    exact heeds_removeTree order
  · simp only [hdir, learn]
    exact ⟨⟨rfl, rfl⟩, fun _ => rfl⟩

/-- What is returned after a touch of the access marker. -/
theorem heeds_touchAndReturn {time : Body} {order : List String → List String} {tempName : String}
    (h : k.present = some m) :
    (touchAndReturn m time).Heeds learn ByKnown
      (Returns (.ensureLocal m order tempName time)) k := by
  refine Program.heeds_perform_bind.mpr ⟨trivial, fun s => ?_⟩
  rintro name ⟨⟩
  exact ⟨m, order, tempName, time, rfl, rfl, h⟩

theorem returns_of_ne {call : CacheCall} {reply : CacheReply} (h : ∀ name, reply ≠ .path name) :
    Returns call reply k := fun name heq => absurd heq (h name)

theorem heeds_placeDownload {listed : CacheStore} {temp : Dict Body} {time : Body}
    {order : List String → List String} {tempName : String}
    (h : Downloading k m listed [] temp) :
    (placeDownload m order tempName time temp).Heeds learn ByKnown
      (Returns (.ensureLocal m order tempName time)) k := by
  refine Program.heeds_bind.mpr (Program.heeds_mono (heeds_clearTarget order) ?_)
  rintro r k' ⟨⟨hlisted, hfetched⟩, hcleared⟩
  cases r with
  | false => exact returns_of_ne (by simp)
  | true =>
      have hdownloaded : Downloaded k' m listed temp :=
        ⟨by rw [hfetched]; exact h.fetched,
          fun relative hr => (h.all relative hr).resolve_left List.not_mem_nil⟩
      refine Program.heeds_perform_bind.mpr ⟨?_, fun s => heeds_touchAndReturn rfl⟩
      exact ⟨hcleared rfl, listed, temp, hlisted.trans h.listing, hdownloaded, rfl⟩

/-- The code of a call keeps to what it knows. -/
theorem heeds_code (call : CacheCall) :
    call.code.Heeds learn ByKnown (Returns call) {} := by
  cases call with
  | upload m snapshot =>
      refine Program.heeds_bind.mpr (heeds_uploadFiles _ ?_)
      exact Program.heeds_perform_bind.mpr ⟨trivial, fun s => returns_of_ne (by simp)⟩
  | ensureLocal m order tempName time =>
      refine Program.heeds_perform_bind.mpr ⟨trivial, fun s => ?_⟩
      by_cases hcached : s.isCachedLocally m = true
      · simp only [hcached, if_true, learn]
        exact heeds_touchAndReturn rfl
      simp only [hcached, learn]
      refine Program.heeds_perform_bind.mpr ⟨rfl, fun listed => ?_⟩
      split
      · exact returns_of_ne (by simp)
      rename_i files hfiles
      have hstart : Downloading (learn {} (.listObjects m) listed) m listed
          (listed.filesToDownload m) [] :=
        ⟨rfl, fun _ hr => hr, fun _ _ hb => (nomatch hb), fun _ hr => Or.inl hr⟩
      refine Program.heeds_bind.mpr (Program.heeds_mono (heeds_downloadFiles _ hstart) ?_)
      · rintro r k' hk'
        cases r with
        | none => exact returns_of_ne (by simp)
        | some temp => exact heeds_placeDownload (hk' temp rfl)

end Heeding

section Invariants

/-- The prefix of the model holds the files of the snapshot and the marker. The names of the files
are such that a download takes them up and puts no marker of its own in their place. -/
structure Published (s : CacheStore) (m : String) (snapshot : Snapshot) : Prop where
  objects : ∀ relative, relative ≠ completeMarker →
    s.objects.get? (objectKey m relative) = snapshot.files.get? relative
  marker : (s.objects.get? (objectKey m completeMarker)).isSome
  ordinary : ∀ relative, (snapshot.files.get? relative).isSome → Ordinary relative

/-- The two stores have the same objects under the prefix of the model. -/
def SamePrefix (s s' : CacheStore) (m : String) : Prop :=
  ∀ relative, s'.objects.get? (objectKey m relative) = s.objects.get? (objectKey m relative)

variable (ids : Set String)

/-- Where a prefix is listed it is that of a finished upload, it is the same where the files are
downloaded, and a removal does not come upon a marker. -/
structure Steady (s : CacheStore) (n : Noted CacheEffect Known) : Prop where
  model : n.effect.modelId ∈ ids
  listing : ∀ m, n.effect = .listObjects m →
    ∃ snapshot, (m, snapshot) ∈ s.uploads ∧ Published s m snapshot
  download : ∀ m relative, n.effect = .downloadFile m relative →
    ∀ m' listed, n.known.listed = some (m', listed) → SamePrefix listed s m'
  spares : SparesComplete s n.effect

abbrev CachePool := Pool CacheCall (Noted CacheEffect Known) CacheStore (CacheReply × Known)

/-- The uploads and the engines of the cache, in sessions that remember what they know. -/
def sessions (call : CacheCall) :
    Program (Noted CacheEffect Known) CacheStore (CacheReply × Known) :=
  call.code.noting learn {}

/-- Nothing but the calls changes the store. -/
def CallsOnly (_ : CachePool) : Turn CacheCall (Noted CacheEffect Known) → Prop
  | .outside _ => False
  | _ => True

/-- Every effect of a call is steady. -/
def SteadyTurn (pool : CachePool) : Turn CacheCall (Noted CacheEffect Known) → Prop
  | .move i => ∀ n, pool.next? i = some n → Steady ids pool.store n
  | .outside _ => False
  | _ => True

/-- A directory with a marker holds the files of an uploaded snapshot of its model. -/
def AllComplete (s : CacheStore) : Prop :=
  ∀ name d, s.dirs.get? name = some d → d.complete = true →
    ∃ m ∈ ids, safeId m = name ∧ ∃ snapshot, (m, snapshot) ∈ s.uploads ∧ d.Shows snapshot

/-- What a call knows is so. -/
structure Informed (s : CacheStore) (k : Known) : Prop where
  listed : ∀ m listed, k.listed = some (m, listed) → m ∈ ids ∧
    ∃ snapshot, (m, snapshot) ∈ s.uploads ∧ Published listed m snapshot
  fetched : ∀ m listed, k.listed = some (m, listed) →
    ∀ entry ∈ k.fetched, SamePrefix listed entry.2 m
  cleared : ∀ m, k.cleared = some m → ∀ d, s.dir? m = some d → d.complete = true
  present : ∀ m, k.present = some m → m ∈ ids ∧ ∃ d, s.dir? m = some d ∧ d.complete = true

variable {ids} {s : CacheStore} {k k' : Known} {e : CacheEffect} {m name : String} {d d' : CacheDir}

theorem uploads_apply {upload : String × Snapshot} (h : upload ∈ s.uploads) :
    upload ∈ (e.apply s).uploads := by
  cases e with
  | putMarker => exact List.mem_cons_of_mem _ h
  | unlink | moveTemp | touchAccessMarker => simp only [CacheEffect.apply]; split <;> exact h
  | removeDir => simp only [CacheEffect.apply]; split <;> exact h
  | _ => exact h

/-- A complete directory stays one with the same files. -/
theorem complete_apply (hspares : SparesComplete s e) (hdir : s.dirs.get? name = some d)
    (hd : d.complete = true) : ∃ d', (e.apply s).dirs.get? name = some d' ∧ SameFiles d d' := by
  rw [get?_dirs_apply]
  split
  · rename_i hname
    have hdir' : s.dir? e.modelId = some d := by rwa [CacheStore.dir?, hname]
    rw [hdir']
    exact newDir_of_complete hspares hdir' hd
  · exact ⟨d, hdir, fun _ _ => rfl⟩

/-- The files that were downloaded are those of the snapshot. -/
theorem shows_of_downloaded {listed : CacheStore} {temp : Dict Body} {snapshot : Snapshot}
    (hpublished : Published listed m snapshot)
    (hsame : ∀ entry ∈ k.fetched, SamePrefix listed entry.2 m)
    (h : Downloaded k m listed temp) :
    CacheDir.Shows ⟨temp.set completeMarker [], []⟩ snapshot := by
  intro relative hmarker _
  rw [Dict.get?_set_ne _ _ hmarker.symm]
  cases hfile : temp.get? relative with
  | some body =>
      obtain ⟨_, s', hs', hbody⟩ := h.fetched relative body hfile
      rw [← hbody, hsame _ hs' relative, hpublished.objects relative hmarker]
  | none =>
      cases hsnapshot : snapshot.files.get? relative with
      | none => rfl
      | some body =>
          have hlisted : relative ∈ listed.filesToDownload m := by
            rw [mem_filesToDownload, hpublished.objects relative hmarker, hsnapshot]
            exact ⟨rfl, hpublished.ordinary relative (by rw [hsnapshot]; rfl)⟩
          have hall := h.all relative hlisted
          rw [hfile] at hall
          cases hall

theorem complete_moved (temp : Dict Body) :
    CacheDir.complete ⟨temp.set completeMarker [], []⟩ = true := by
  simp [CacheDir.complete, Dict.contains]

/-- A steady effect keeps every directory with a marker complete. -/
theorem AllComplete.apply (h : AllComplete ids s) (hsteady : Steady ids s ⟨e, k⟩)
    (hk : Informed ids s k) (hG : ByKnown k e) : AllComplete ids (e.apply s) := by
  intro name d' hd' hcomplete
  have hkept : ∀ d, s.dirs.get? name = some d → d.complete = true → SameFiles d d' →
      ∃ m ∈ ids, safeId m = name ∧
        ∃ snapshot, (m, snapshot) ∈ (e.apply s).uploads ∧ d'.Shows snapshot := by
    intro d hd hold hsame
    obtain ⟨m, hm, hname, snapshot, hupload, hshows⟩ := h name d hd hold
    exact ⟨m, hm, hname, snapshot, uploads_apply hupload, hsame.shows hshows⟩
  rw [get?_dirs_apply] at hd'
  split at hd'
  · rename_i hname
    rcases source_of_newDir hsteady.spares hd' with
      ⟨d, hd, hsource⟩ | ⟨_, m, tempName, files, rfl, rfl⟩
    · obtain ⟨hold, hsame⟩ := hsource hcomplete
      exact hkept d (hname ▸ hd) hold hsame
    · obtain ⟨_, listed, temp, hlisted, hdownloaded, rfl⟩ := hG
      obtain ⟨hm, snapshot, hupload, hpublished⟩ := hk.listed m listed hlisted
      have hshows := shows_of_downloaded hpublished (hk.fetched m listed hlisted) hdownloaded
      exact ⟨m, hm, hname, snapshot, uploads_apply hupload, hshows⟩
  · exact hkept d' hd' hcomplete fun _ _ => rfl

/-- Steady effects of others leave a call informed. -/
theorem Informed.apply (h : Informed ids s k') (hspares : SparesComplete s e) (hG : ByKnown k e) :
    Informed ids (e.apply s) k' := by
  refine ⟨fun m listed hlisted => ?_, h.fetched, fun m hcleared d' hd' => ?_, fun m hpresent => ?_⟩
  · obtain ⟨hm, snapshot, hupload, hpublished⟩ := h.listed m listed hlisted
    exact ⟨hm, snapshot, uploads_apply hupload, hpublished⟩
  · cases hdir : s.dir? m with
    | some d =>
        obtain ⟨d'', hd'', hsame⟩ := complete_apply hspares hdir (h.cleared m hcleared d hdir)
        obtain rfl := Option.some.inj (hd'.symm.trans hd'')
        rw [hsame.complete, h.cleared m hcleared d hdir]
    | none =>
        rw [CacheStore.dir?, get?_dirs_apply] at hd'
        split at hd'
        · rename_i hname
          have hnone : s.dir? e.modelId = none := by rwa [CacheStore.dir?, hname]
          rcases source_of_newDir hspares hd' with ⟨d, hd, _⟩ | ⟨_, m', tempName, files, rfl, rfl⟩
          · rw [hnone] at hd
            cases hd
          · obtain ⟨_, _, temp, _, _, rfl⟩ := hG
            exact complete_moved temp
        · rw [CacheStore.dir?] at hdir
          rw [hdir] at hd'
          cases hd'
  · obtain ⟨hm, d, hd, hcomplete⟩ := h.present m hpresent
    obtain ⟨d', hd', hsame⟩ := complete_apply hspares hd hcomplete
    exact ⟨hm, d', hd', hsame.complete.trans hcomplete⟩

theorem dir?_removeDir (h : (s.dir? m).any (·.entries.isEmpty) = true) :
    ((CacheEffect.removeDir m).apply s).dir? m = none := by
  have happly : ((CacheEffect.removeDir m).apply s).dir? m =
      (CacheEffect.removeDir m).newDir (s.dir? m) :=
    (get?_dirs_apply _ _ _).trans (if_pos rfl)
  rw [happly]
  cases hdir : s.dir? m with
  | none => rfl
  | some d =>
      obtain ⟨_ | ⟨file, files⟩, _ | ⟨inner, moved⟩⟩ := d
      · rfl
      all_goals simp [hdir, CacheDir.entries] at h

/-- Whatever a removal has left or found, the directory of a moved download is complete. -/
theorem complete_moveTemp {tempName : String} {files : Dict Body}
    (hG : ByKnown k (.moveTemp m tempName files)) (hk : Informed ids s k) :
    ∃ d, ((CacheEffect.moveTemp m tempName files).apply s).dir? m = some d ∧ d.complete = true := by
  obtain ⟨hcleared, _, temp, _, _, rfl⟩ := hG
  have happly : ((CacheEffect.moveTemp m tempName (temp.set completeMarker [])).apply s).dir? m =
      (CacheEffect.moveTemp m tempName (temp.set completeMarker [])).newDir (s.dir? m) :=
    (get?_dirs_apply _ _ _).trans (if_pos rfl)
  rw [happly]
  cases hdir : s.dir? m with
  | none => exact ⟨_, rfl, complete_moved temp⟩
  | some d => exact ⟨_, rfl, hk.cleared m hcleared d hdir⟩

/-- What a steady effect teaches its call is so. -/
theorem Informed.learn (h : Informed ids s k) (hsteady : Steady ids s ⟨e, k⟩) (hG : ByKnown k e) :
    Informed ids (e.apply s) (learn k e s) := by
  have hkept : Informed ids (e.apply s) k := h.apply hsteady.spares hG
  cases e with
  | listObjects m =>
      obtain ⟨snapshot, hupload, hpublished⟩ := hsteady.listing m rfl
      refine ⟨?_, ?_, hkept.cleared, hkept.present⟩
      · rintro _ _ ⟨⟩
        exact ⟨hsteady.model, snapshot, hupload, hpublished⟩
      · rintro _ _ ⟨⟩ entry hentry
        rw [show (ModelCache.learn k (.listObjects m) s).fetched = [] from hG] at hentry
        cases hentry
  | downloadFile m relative =>
      refine ⟨hkept.listed, fun m' listed hlisted entry hentry => ?_, hkept.cleared, hkept.present⟩
      rcases List.mem_cons.mp hentry with rfl | hentry
      · exact hsteady.download m relative rfl m' listed hlisted
      · exact hkept.fetched m' listed hlisted entry hentry
  | checkCached m =>
      simp only [ModelCache.learn]
      split
      · rename_i hcached
        refine ⟨hkept.listed, hkept.fetched, hkept.cleared, ?_⟩
        rintro _ ⟨⟩
        cases hdir : s.dir? m with
        | none => simp [CacheStore.isCachedLocally, hdir] at hcached
        | some d =>
            refine ⟨hsteady.model, d, hdir, ?_⟩
            simpa [CacheStore.isCachedLocally, hdir] using hcached
      · exact hkept
  | checkTarget m =>
      simp only [ModelCache.learn]
      split
      · exact hkept
      · rename_i hnone
        refine ⟨hkept.listed, hkept.fetched, ?_, hkept.present⟩
        rintro _ ⟨⟩ d hd
        have hsome : (s.dir? m).isSome = true := by
          rw [show s.dir? m = some d from hd]
          rfl
        exact absurd hsome hnone
  | removeDir m =>
      simp only [ModelCache.learn]
      split
      · rename_i hempty
        refine ⟨hkept.listed, hkept.fetched, ?_, hkept.present⟩
        rintro _ ⟨⟩ d hd
        rw [dir?_removeDir hempty] at hd
        cases hd
      · exact hkept
  | moveTemp m tempName files =>
      refine ⟨hkept.listed, hkept.fetched, hkept.cleared, ?_⟩
      rintro _ ⟨⟩
      exact ⟨hsteady.model, complete_moveTemp hG h⟩
  | uploadFile | putMarker | scanTarget | unlink | touchAccessMarker => exact hkept

theorem informed_start (s : CacheStore) : Informed ids s {} :=
  ⟨fun _ _ h => (nomatch h), fun _ _ h => (nomatch h), fun _ h => (nomatch h),
    fun _ h => (nomatch h)⟩

theorem remembers :
    Remembers learn ByKnown {} (SteadyTurn ids) (AllComplete ids) (Informed ids) where
  start := informed_start
  step _ _ n hok hnext hI hJ hG := ⟨hI.apply (hok n hnext) hJ hG, hJ.learn (hok n hnext) hG⟩
  others _ _ n _ hok hnext _ _ hk hG := hk.apply (hok n hnext).spares hG
  outside _ _ hok := hok.elim

end Invariants

/-- The path a call for a model returns is that of the model's own directory, with a marker and
the files of an uploaded snapshot of the model. -/
def ReturnsComplete (s : CacheStore) (r : Return CacheCall CacheStore (CacheReply × Known)) :
    Prop :=
  ∀ name, r.result.1 = .path name →
    ∃ m order tempName time, r.call = .ensureLocal m order tempName time ∧ name = safeId m ∧
      ∃ d, s.dirs.get? name = some d ∧ d.complete = true ∧
        ∃ snapshot, (m, snapshot) ∈ s.uploads ∧ d.Shows snapshot

/-- In steady runs with models that have directories of their own, every directory with a marker
holds the files of one uploaded snapshot, and so does every directory that a call returns. -/
theorem cached_models_complete {ids : Set String} (hids : Set.InjOn safeId ids) {s₀ : CacheStore}
    (hs₀ : AllComplete ids s₀) {pool : CachePool}
    (run : Pool.Run sessions (SteadyTurn ids) (Pool.idle s₀) pool) :
    AllComplete ids pool.store ∧ ∀ r ∈ pool.returned, ReturnsComplete pool.store r := by
  obtain ⟨gs, hsessions⟩ := remembers.run heeds_code hs₀ run
  refine ⟨hsessions.store, fun r hr name hname => ?_⟩
  obtain ⟨hinformed, hreturns⟩ := hsessions.returned r hr
  obtain ⟨m, order, tempName, time, hcall, rfl, hpresent⟩ := hreturns name hname
  obtain ⟨hm, d, hdir, hcomplete⟩ := hinformed.present m hpresent
  obtain ⟨m', hm', hsafe, snapshot, hupload, hshows⟩ := hsessions.store _ d hdir hcomplete
  obtain rfl := hids hm' hm hsafe
  exact ⟨m', order, tempName, time, hcall, rfl, d, hdir, hcomplete, snapshot, hupload, hshows⟩

section Runs

/-- The prefix holds the files of the snapshot, checked entry by entry. -/
def CacheStore.publishes (s : CacheStore) (m : String) (snapshot : Snapshot) : Bool :=
  (snapshot.files.all fun file =>
      decide (s.objects.get? (objectKey m file.1) = some file.2) && file.1 ≠ "" &&
        file.1 ≠ completeMarker && !traverses file.1) &&
    ((s.objects.map (·.1)).all fun key =>
      !under m key || relativePath m key = completeMarker ||
        snapshot.files.contains (relativePath m key)) &&
    s.objects.contains (objectKey m completeMarker)

variable {s : CacheStore} {m : String} {snapshot : Snapshot}

theorem published_of_publishes (h : s.publishes m snapshot = true) : Published s m snapshot := by
  simp only [CacheStore.publishes, Bool.and_eq_true, List.all_eq_true, Bool.or_eq_true,
    decide_eq_true_eq, Bool.not_eq_true', List.mem_map] at h
  obtain ⟨⟨hfiles, hkeys⟩, hmarker⟩ := h
  have hfile : ∀ relative body, snapshot.files.get? relative = some body →
      s.objects.get? (objectKey m relative) = some body ∧ Ordinary relative := by
    intro relative body hbody
    obtain ⟨⟨⟨hobject, hempty⟩, hcomplete⟩, htraverses⟩ := hfiles _ (Dict.mem_of_get? hbody)
    exact ⟨hobject, hempty, hcomplete, htraverses⟩
  refine ⟨fun relative hcomplete => ?_, hmarker, fun relative hsome => ?_⟩
  · cases hbody : snapshot.files.get? relative with
    | some body => exact (hfile relative body hbody).1
    | none =>
        by_contra hobject
        obtain ⟨body, hobject⟩ := Option.ne_none_iff_exists'.mp hobject
        have hkey := hkeys _ ⟨_, Dict.mem_of_get? hobject, rfl⟩
        rw [relativePath_objectKey, under_objectKey] at hkey
        rcases hkey with (hkey | hkey) | hkey
        · cases hkey
        · exact hcomplete hkey
        · rw [Dict.contains, hbody] at hkey
          cases hkey
  · obtain ⟨body, hbody⟩ := Option.isSome_iff_exists.mp hsome
    exact (hfile relative body hbody).2

/-- An effect for the model that is steady, with the bucket as it was listed. -/
def calm (m : String) (s : CacheStore) (n : Noted CacheEffect Known) : Bool :=
  n.effect.modelId = m &&
    match n.effect with
    | .listObjects m => s.uploads.any fun upload => upload.1 = m && s.publishes m upload.2
    | .downloadFile .. => n.known.listed.all fun l => decide (l.2.objects = s.objects)
    | .unlink .. => false
    | _ => true

theorem steady_of_calm {n : Noted CacheEffect Known} (h : calm m s n = true) :
    Steady {m} s n := by
  obtain ⟨e, k⟩ := n
  simp only [calm, Bool.and_eq_true, decide_eq_true_eq] at h
  obtain ⟨hmodel, hcalm⟩ := h
  refine ⟨hmodel, ?_, ?_, ?_⟩
  · rintro m' rfl
    obtain ⟨⟨m'', snapshot⟩, hupload, hpublishes⟩ := List.any_eq_true.mp hcalm
    obtain ⟨heq, hpublishes⟩ := Bool.and_eq_true_iff.mp hpublishes
    obtain rfl := of_decide_eq_true heq
    exact ⟨snapshot, hupload, published_of_publishes hpublishes⟩
  · rintro m' relative rfl m'' listed hlisted r
    have hlist : k.listed = some (m'', listed) := hlisted
    have hobjects : listed.objects = s.objects := by simpa [hlist] using hcalm
    rw [hobjects]
  · rintro m' entry rfl
    cases hcalm

/-- Every move of the pool is calm. -/
def CalmTurn (m : String) (pool : CachePool) : Turn CacheCall (Noted CacheEffect Known) → Prop
  | .move i => (pool.next? i).all (calm m pool.store) = true
  | .outside _ => False
  | _ => True

instance (m : String) :
    ∀ (pool : CachePool) (t : Turn CacheCall (Noted CacheEffect Known)),
      Decidable (CalmTurn m pool t)
  | _, .start _ => isTrue trivial
  | pool, .move i => inferInstanceAs (Decidable ((pool.next? i).all (calm m pool.store) = true))
  | _, .fail _ => isTrue trivial
  | _, .outside _ => isFalse id

theorem steadyTurn_of_calmTurn {pool : CachePool} {t : Turn CacheCall (Noted CacheEffect Known)}
    (h : CalmTurn m pool t) : SteadyTurn {m} pool t := by
  cases t with
  | move i =>
      intro n hnext
      have hcalm : (pool.next? i).all (calm m pool.store) = true := h
      rw [hnext] at hcalm
      exact steady_of_calm hcalm
  | outside e => exact h
  | start c => trivial
  | fail i => trivial

def emptyCache : CacheStore := ⟨[], [], []⟩

theorem allComplete_emptyCache (ids : Set String) : AllComplete ids emptyCache :=
  fun _ _ h => (nomatch h)

def whisperSnapshot : Snapshot where
  files := [("config.json", [123, 125]), ("model.bin", [1, 2, 3])]
  distinct := by decide

def uploadWhisper : CacheCall := .upload "org/whisper" whisperSnapshot

def ensureWhisper : CacheCall := .ensureLocal "org/whisper" id "tmp" []

/-- An engine downloads the model after it has been uploaded. -/
def uploadThenDownload : List (Turn CacheCall (Noted CacheEffect Known)) :=
  .start uploadWhisper :: List.replicate 4 (.move 0) ++
    .start ensureWhisper :: List.replicate 8 (.move 0)

/-- An engine downloads the model while the first of its files is there. -/
def downloadMidUpload : List (Turn CacheCall (Noted CacheEffect Known)) :=
  [.start uploadWhisper, .move 0, .start ensureWhisper] ++ List.replicate 5 (.move 1)

def poolAfter (ts : List (Turn CacheCall (Noted CacheEffect Known))) : CachePool :=
  (Pool.idle emptyCache).turns sessions ts

theorem run_uploadThenDownload :
    Pool.Run sessions (SteadyTurn {"org/whisper"}) (Pool.idle emptyCache)
      (poolAfter uploadThenDownload) := by
  have hcalm : Pool.Run sessions (CalmTurn "org/whisper") (Pool.idle emptyCache)
      (poolAfter uploadThenDownload) :=
    Pool.run_of_allowed (by decide +kernel)
  refine Relation.ReflTransGen.mono ?_ _ _ hcalm
  rintro _ _ ⟨t, ht⟩
  exact .turn t (steadyTurn_of_calmTurn ht)

/-- The engine has the whole model. -/
theorem cached_models_complete_whisper :
    AllComplete {"org/whisper"} (poolAfter uploadThenDownload).store ∧
      ∀ r ∈ (poolAfter uploadThenDownload).returned,
        ReturnsComplete (poolAfter uploadThenDownload).store r :=
  cached_models_complete (Set.injOn_singleton safeId _) (allComplete_emptyCache _)
    run_uploadThenDownload

/-- The calls take their turns while an engine downloads what has been uploaded by then. -/
theorem run_downloadMidUpload :
    Pool.Run sessions CallsOnly (Pool.idle emptyCache) (poolAfter downloadMidUpload) := by
  refine Pool.run_of_allowed (Pool.allowed_of_forall (fun t ht pool => ?_) _)
  simp only [downloadMidUpload, List.mem_append, List.mem_cons, List.mem_replicate,
    List.not_mem_nil, or_false] at ht
  rcases ht with (rfl | rfl | rfl) | ⟨_, rfl⟩
  all_goals trivial

/-- The engine has put a marker next to the one file that was there, and no upload of the model
has been finished. -/
theorem downloaded_mid_upload : ¬ ∀ pool : CachePool,
    Pool.Run sessions CallsOnly (Pool.idle emptyCache) pool → AllComplete Set.univ pool.store := by
  intro h
  have hdirs : (poolAfter downloadMidUpload).store.dirs =
      [("org--whisper", ⟨[("config.json", [123, 125]), (completeMarker, [])], []⟩)] := by
    decide +kernel
  have huploads : (poolAfter downloadMidUpload).store.uploads.length = 0 := by decide +kernel
  have hdir : (poolAfter downloadMidUpload).store.dirs.get? "org--whisper" =
      some ⟨[("config.json", [123, 125]), (completeMarker, [])], []⟩ := by
    rw [hdirs]
    decide
  obtain ⟨_, _, _, _, hupload, _⟩ := h _ run_downloadMidUpload _ _ hdir (by decide)
  rw [List.eq_nil_of_length_eq_zero huploads] at hupload
  cases hupload

end Runs

end Dalston.Engines.ModelCache
