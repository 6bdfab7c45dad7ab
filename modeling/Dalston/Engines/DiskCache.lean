import Dalston.Engines.ModelCache

/-!
# Evicting models from disk

The evictor scans the cache directories and reads from the name of each entry which model it
holds. Entries of loaded models stay. Of the others it removes those that were last used too long
ago and, while the cache is over its budget, the one that was used longest ago.

## Implementation notes

Sizes and times are those the scan reads, and a removal takes the whole directory. The wait
between two passes and the log are left out. A directory that does not exist has no items.
-/

namespace Dalston.Engines.DiskCache

open Foundation
open ModelCache (safeId)

/-- An item of a cache directory, with what the scan asks of it. -/
structure Item where
  name : String
  isDir : Bool := true
  complete : Bool := true
  fileSizes : List Nat
  accessMarker : Option Rat
  mtime : Option Rat := none
  name_flat : '/' ∉ name.toList := by decide

structure CacheDir where
  path : String
  isHf : Bool
  items : List Item
  names_nodup : (items.map (·.name)).Nodup := by decide

/-- The cache directories of an evictor, each of them once. -/
structure CacheDirs where
  dirs : List CacheDir
  paths_nodup : (dirs.map (·.path)).Nodup := by decide

structure CachePath where
  parent : String
  name : String
  deriving DecidableEq

structure CacheEntry where
  modelId : String
  path : CachePath
  sizeBytes : Nat
  lastAccessed : Rat
  isHf : Bool
  deriving DecidableEq

inductive Reason
  | ttl
  | budget
  deriving DecidableEq

/-- The record of an evicted model, with its whole entry. -/
structure EvictedModel where
  entry : CacheEntry
  reason : Reason
  deriving DecidableEq

structure EvictionResult where
  scanned : Nat
  evicted : List EvictedModel
  skippedLoaded : Nat
  totalSizeAfter : Int

structure Limits where
  maxGb : Rat := 0
  maxAgeHours : Rat := 0

def Limits.maxBytes (limits : Limits) : Int := ⌊limits.maxGb * 1024 * 1024 * 1024⌋

/-! ## Names of directories -/

def hfPrefix : String := "models--"

/-- The directory of a model in the cache of either kind. -/
def dirName (isHf : Bool) (modelId : String) : String :=
  if isHf then hfPrefix ++ safeId modelId else safeId modelId

/-- `.replace("--", "/")`. -/
def slashes : List Char → List Char
  | '-' :: '-' :: cs => '/' :: slashes cs
  | c :: cs => c :: slashes cs
  | [] => []

/-- `.removeprefix("models--")`. -/
def removeHfPrefix (name : List Char) : List Char :=
  if hfPrefix.toList <+: name then name.drop hfPrefix.toList.length else name

def dirToModelId (name : String) (isHf : Bool) : String :=
  String.ofList (slashes (if isHf then removeHfPrefix name.toList else name.toList))

/-! ## The pass -/

def Item.size (item : Item) : Nat := item.fileSizes.sum

def Item.accessTime (item : Item) : Rat := item.accessMarker.getD (item.mtime.getD 0)

/-- The scan takes the item for the directory of a model. -/
def Item.scanned (isHf : Bool) (item : Item) : Bool :=
  item.isDir && (!isHf || hfPrefix.toList.isPrefixOf item.name.toList) && (isHf || item.complete)

def CacheDir.entry (d : CacheDir) (item : Item) : CacheEntry where
  modelId := dirToModelId item.name d.isHf
  path := ⟨d.path, item.name⟩
  sizeBytes := item.size
  lastAccessed := item.accessTime
  isHf := d.isHf

def CacheDir.entries (d : CacheDir) : List CacheEntry :=
  (d.items.filter (Item.scanned d.isHf)).map d.entry

def scanEntries (cache : CacheDirs) : List CacheEntry := cache.dirs.flatMap CacheDir.entries

/-- The entry was last used too long ago. -/
def Limits.expired (limits : Limits) (now : Rat) (e : CacheEntry) : Bool :=
  decide (0 < limits.maxAgeHours ∧ limits.maxAgeHours * 3600 < now - e.lastAccessed)

/-- The size of the entries that are not among the evicted. -/
def sizeLeft (entries evicted : List CacheEntry) : Int :=
  ((entries.filter fun e => e.path ∉ evicted.map (·.path)).map fun e => (e.sizeBytes : Int)).sum

/-- Remove one entry after the other while the total is over the budget. -/
def budgetPass (maxBytes : Int) : Int → List CacheEntry → List CacheEntry × Int
  | total, [] => ([], total)
  | total, e :: rest =>
    if total ≤ maxBytes then ([], total)
    else
      let after := budgetPass maxBytes (total - e.sizeBytes) rest
      (e :: after.1, after.2)

/-- The entries of models that are not loaded, as far as the evictor can read. -/
def eligible (isModelLoaded : String → Bool) (entries : List CacheEntry) : List CacheEntry :=
  entries.filter fun e => !isModelLoaded e.modelId

/-- The entries that go for their age. -/
def Limits.old (limits : Limits) (now : Rat) (entries : List CacheEntry) : List CacheEntry :=
  entries.filter (limits.expired now)

/-- The entries that outlive the first pass, the one used longest ago first. -/
def Limits.byUse (limits : Limits) (now : Rat) (entries : List CacheEntry) : List CacheEntry :=
  (entries.filter fun e => !limits.expired now e).insertionSort fun e e' =>
    e.lastAccessed ≤ e'.lastAccessed

/-- The pass for the budget, when there is one. -/
def Limits.spend (limits : Limits) (total : Int) (entries : List CacheEntry) :
    List CacheEntry × Int :=
  if 0 < limits.maxGb then budgetPass limits.maxBytes total entries else ([], total)

/-- One pass over the entries, at a time and for the models that are loaded. -/
def evict (limits : Limits) (isModelLoaded : String → Bool) (now : Rat)
    (entries : List CacheEntry) : EvictionResult :=
  let old := limits.old now (eligible isModelLoaded entries)
  let byUse := limits.byUse now (eligible isModelLoaded entries)
  let after := limits.spend (sizeLeft entries old) byUse
  { scanned := entries.length
    evicted := old.map (⟨·, .ttl⟩) ++ after.1.map (⟨·, .budget⟩)
    skippedLoaded := (entries.filter fun e => isModelLoaded e.modelId).length
    totalSizeAfter := after.2 }

def scanAndEvict (limits : Limits) (isModelLoaded : String → Bool) (now : Rat)
    (cache : CacheDirs) : EvictionResult :=
  evict limits isModelLoaded now (scanEntries cache)

/-! ## Reading a name back -/

/-- An id that its directory's name gives back: no dash before a dash or a slash. -/
def Plain (modelId : String) : Prop :=
  modelId.toList.IsChain fun c d => ¬ (c = '-' ∧ (d = '-' ∨ d = '/'))

instance : DecidablePred Plain := fun modelId =>
  inferInstanceAs (Decidable (modelId.toList.IsChain _))

/-- The dashes that the encoding puts for the slashes. -/
def dashes (modelId : List Char) : List Char :=
  modelId.flatMap fun c => if c = '/' then ['-', '-'] else [c]

@[simp] theorem dashes_nil : dashes [] = [] := rfl

@[simp] theorem dashes_slash (cs : List Char) : dashes ('/' :: cs) = '-' :: '-' :: dashes cs := rfl

theorem dashes_cons {c : Char} (hc : c ≠ '/') (cs : List Char) :
    dashes (c :: cs) = c :: dashes cs := by
  simp [dashes, hc]

theorem safeId_toList (modelId : String) : (safeId modelId).toList = dashes modelId.toList := by
  rw [safeId, String.toList_ofList, dashes]

@[simp] theorem slashes_nil : slashes [] = [] := rfl

@[simp] theorem slashes_dashes_cons (cs : List Char) :
    slashes ('-' :: '-' :: cs) = '/' :: slashes cs := rfl

theorem slashes_cons {c : Char} (hc : c ≠ '-') (cs : List Char) :
    slashes (c :: cs) = c :: slashes cs := by
  rw [slashes]
  rintro _ rfl
  exact absurd rfl hc

theorem slashes_dash_cons {d : Char} (hd : d ≠ '-') (cs : List Char) :
    slashes ('-' :: d :: cs) = '-' :: slashes (d :: cs) := by
  rw [slashes]
  rintro _ - h
  exact hd (List.cons.inj h).1

/-- A name without a slash is the one that its reading is written as. -/
theorem dashes_slashes {name : List Char} (hflat : '/' ∉ name) : dashes (slashes name) = name := by
  induction name using slashes.induct with
  | case1 cs ih =>
      rw [slashes_dashes_cons, dashes_slash, ih fun h => hflat (by simp [h])]
  | case2 c cs hnot ih =>
      have hc : c ≠ '/' := fun h => hflat (by simp [h])
      rw [slashes.eq_2 c cs hnot, dashes_cons hc, ih fun h => hflat (by simp [h])]
  | case3 => rfl

theorem slashes_dashes_iff (cs : List Char) :
    slashes (dashes cs) = cs ↔ cs.IsChain fun c d => ¬ (c = '-' ∧ (d = '-' ∨ d = '/')) := by
  induction cs with
  | nil => simp
  | cons c cs ih =>
      by_cases hslash : c = '/'
      · subst hslash
        cases cs <;> simp_all
      by_cases hdash : c = '-'
      · subst hdash
        rw [dashes_cons hslash]
        cases cs with
        | nil => simp [slashes]
        | cons d cs =>
            by_cases hd : d = '/' ∨ d = '-'
            · rcases hd with rfl | rfl
              · simp
              · simp [dashes_cons]
            · push Not at hd
              rw [dashes_cons hd.1, slashes_dash_cons hd.2, ← dashes_cons hd.1, List.cons_inj_right,
                ih, List.isChain_cons_cons]
              simp [hd]
      · rw [dashes_cons hslash, slashes_cons hdash, List.cons_inj_right, ih]
        cases cs <;> simp [hdash]

theorem dirToModelId_dirName (isHf : Bool) (modelId : String) :
    dirToModelId (dirName isHf modelId) isHf = String.ofList (slashes (dashes modelId.toList)) := by
  cases isHf with
  | false => rw [dirToModelId, dirName, if_neg Bool.false_ne_true, if_neg Bool.false_ne_true,
      safeId_toList]
  | true =>
      rw [dirToModelId, dirName, if_pos rfl, if_pos rfl, String.toList_append, safeId_toList,
        removeHfPrefix, if_pos (List.prefix_append _ _), List.drop_left]

theorem dirToModelId_dirName_iff {isHf : Bool} {modelId : String} :
    dirToModelId (dirName isHf modelId) isHf = modelId ↔ Plain modelId := by
  rw [dirToModelId_dirName, Plain, ← slashes_dashes_iff, ← String.toList_inj, String.toList_ofList]

example : Plain "Systran/faster-whisper-large-v3" ∧ ¬ Plain "acme/whisper--ft" := by decide

/-- What the evictor reads in the name of an entry is a model of that directory. -/
theorem dirName_dirToModelId {isHf : Bool} {name : String} (hflat : '/' ∉ name.toList)
    (hstarts : isHf → hfPrefix.toList <+: name.toList) :
    dirName isHf (dirToModelId name isHf) = name := by
  rw [← String.toList_inj]
  cases isHf with
  | false =>
      rw [dirName, if_neg Bool.false_ne_true, safeId_toList, dirToModelId,
        if_neg Bool.false_ne_true, String.toList_ofList, dashes_slashes hflat]
  | true =>
      obtain ⟨rest, hrest⟩ := hstarts rfl
      have hflat' : '/' ∉ rest := fun h => hflat (hrest ▸ List.mem_append_right _ h)
      rw [dirName, if_pos rfl, String.toList_append, safeId_toList, dirToModelId, if_pos rfl,
        String.toList_ofList, removeHfPrefix, ← hrest, if_pos (List.prefix_append _ _),
        List.drop_left, dashes_slashes hflat']

/-! ## What the scan finds -/

theorem dirName_of_mem_scanEntries {cache : CacheDirs} {e : CacheEntry}
    (he : e ∈ scanEntries cache) : dirName e.isHf e.modelId = e.path.name := by
  obtain ⟨d, -, he⟩ := List.mem_flatMap.mp he
  obtain ⟨item, hitem, rfl⟩ := List.mem_map.mp he
  have hscanned : item.scanned d.isHf = true := (List.mem_filter.mp hitem).2
  refine dirName_dirToModelId item.name_flat fun hhf => ?_
  simp only [Item.scanned, Bool.and_eq_true, Bool.or_eq_true, Bool.not_eq_true',
    List.isPrefixOf_iff_prefix] at hscanned
  exact hscanned.1.2.resolve_left fun h => Bool.false_ne_true (h.symm.trans hhf)

/-- What the evictor reads in the name of a model's directory is plain. -/
theorem plain_of_mem_scanEntries {cache : CacheDirs} {e : CacheEntry}
    (he : e ∈ scanEntries cache) : Plain e.modelId := by
  obtain ⟨d, -, hmem⟩ := List.mem_flatMap.mp he
  obtain ⟨item, -, rfl⟩ := List.mem_map.mp hmem
  have hname := dirName_of_mem_scanEntries he
  exact dirToModelId_dirName_iff.mp (congrArg (dirToModelId · d.isHf) hname)

theorem paths_nodup (cache : CacheDirs) : ((scanEntries cache).map (·.path)).Nodup := by
  rw [scanEntries, List.map_flatMap, List.nodup_flatMap]
  refine ⟨fun d _ => ?_, (List.pairwise_map.mp cache.paths_nodup).imp fun hne => ?_⟩
  · have hnames : ((d.items.filter (Item.scanned d.isHf)).map (·.name)).Nodup :=
      d.names_nodup.sublist (List.filter_sublist.map _)
    rw [CacheDir.entries, List.map_map]
    exact .of_map CachePath.name (by simpa [Function.comp_def, CacheDir.entry] using hnames)
  · intro path hd hd'
    simp only [CacheDir.entries, List.mem_map, List.map_map] at hd hd'
    obtain ⟨item, -, rfl⟩ := hd
    obtain ⟨item', -, h⟩ := hd'
    exact hne (congrArg CachePath.parent h).symm

/-! ## What a pass removes -/

def totalSize (entries : List CacheEntry) : Int := (entries.map fun e => (e.sizeBytes : Int)).sum

theorem totalSize_append (es es' : List CacheEntry) :
    totalSize (es ++ es') = totalSize es + totalSize es' := by
  simp [totalSize]

/-- What is left when the entries are split into those that go and those that stay. -/
theorem filter_path_perm {entries out kept : List CacheEntry}
    (hnodup : (entries.map (·.path)).Nodup) (hperm : entries.Perm (out ++ kept)) :
    (entries.filter fun e => e.path ∉ out.map (·.path)).Perm kept := by
  have hsplit : (out.map (·.path) ++ kept.map (·.path)).Nodup := by
    rw [← List.map_append]
    exact (hperm.map _).nodup_iff.mp hnodup
  have hout : out.filter (fun e => e.path ∉ out.map (·.path)) = [] :=
    List.filter_eq_nil_iff.mpr fun e he => by simpa using ⟨e, he, rfl⟩
  have hkept : kept.filter (fun e => e.path ∉ out.map (·.path)) = kept :=
    List.filter_eq_self.mpr fun e he => by
      have hnot := hsplit.disjoint.symm (List.mem_map_of_mem he)
      simpa using hnot
  calc entries.filter (fun e => e.path ∉ out.map (·.path))
      |>.Perm ((out ++ kept).filter fun e => e.path ∉ out.map (·.path)) := hperm.filter _
    _ = kept := by rw [List.filter_append, hout, hkept, List.nil_append]

theorem sizeLeft_eq {entries out kept : List CacheEntry}
    (hnodup : (entries.map (·.path)).Nodup) (hperm : entries.Perm (out ++ kept)) :
    sizeLeft entries out = totalSize kept :=
  ((filter_path_perm hnodup hperm).map _).sum_eq

/-- The budget pass takes entries from the front, each while the total is over the budget, until
it is not or none is left. -/
theorem budgetPass_spec (maxBytes total : Int) (entries : List CacheEntry) :
    ∃ kept, entries = (budgetPass maxBytes total entries).1 ++ kept ∧
      (budgetPass maxBytes total entries).2 =
        total - totalSize (budgetPass maxBytes total entries).1 ∧
      ((budgetPass maxBytes total entries).2 ≤ maxBytes ∨ kept = []) ∧
      ∀ before e behind, (budgetPass maxBytes total entries).1 = before ++ e :: behind →
        maxBytes < total - totalSize before := by
  induction entries generalizing total with
  | nil => exact ⟨[], by simp [budgetPass, totalSize]⟩
  | cons e rest ih =>
      by_cases hfits : total ≤ maxBytes
      · exact ⟨e :: rest, by simp [budgetPass, hfits, totalSize]⟩
      obtain ⟨kept, hsplit, htotal, hend, hover⟩ := ih (total - e.sizeBytes)
      simp only [budgetPass, if_neg hfits]
      refine ⟨kept, congrArg (e :: ·) hsplit, ?_, hend, ?_⟩
      · rw [htotal, totalSize, totalSize, List.map_cons, List.sum_cons, sub_sub]
      · rintro (_ | ⟨first, before⟩) e' behind h
        · simpa [totalSize] using hfits
        · obtain ⟨rfl, hrest⟩ := List.cons.inj h
          have hlater := hover before e' behind hrest
          rwa [sub_sub] at hlater

theorem Limits.spend_spec (limits : Limits) (total : Int) (entries : List CacheEntry) :
    ∃ kept, entries = (limits.spend total entries).1 ++ kept ∧
      (limits.spend total entries).2 = total - totalSize (limits.spend total entries).1 ∧
      (0 < limits.maxGb → (limits.spend total entries).2 ≤ limits.maxBytes ∨ kept = []) ∧
      ∀ before e behind, (limits.spend total entries).1 = before ++ e :: behind →
        0 < limits.maxGb ∧ limits.maxBytes < total - totalSize before := by
  by_cases hbudget : 0 < limits.maxGb
  · obtain ⟨kept, hsplit, htotal, hend, hover⟩ := budgetPass_spec limits.maxBytes total entries
    simp only [spend, if_pos hbudget]
    exact ⟨kept, hsplit, htotal, fun _ => hend, fun before e behind h =>
      ⟨hbudget, hover before e behind h⟩⟩
  · exact ⟨entries, by simp [spend, hbudget, totalSize]⟩

variable {limits : Limits} {isModelLoaded : String → Bool} {now : Rat} {entries : List CacheEntry}

theorem mem_eligible {e : CacheEntry} :
    e ∈ eligible isModelLoaded entries ↔ e ∈ entries ∧ isModelLoaded e.modelId = false := by
  simp [eligible]

/-- The entries that go for their age, the others that may go, and those of loaded models. -/
theorem entries_perm (limits : Limits) (isModelLoaded : String → Bool) (now : Rat)
    (entries : List CacheEntry) :
    entries.Perm (limits.old now (eligible isModelLoaded entries) ++
      (limits.byUse now (eligible isModelLoaded entries) ++
        entries.filter fun e => isModelLoaded e.modelId)) := by
  have hloaded := List.filter_append_perm (fun e : CacheEntry => !isModelLoaded e.modelId) entries
  have hage := List.filter_append_perm (limits.expired now) (eligible isModelLoaded entries)
  simp only [Bool.not_not] at hloaded
  rw [← List.append_assoc]
  exact hloaded.symm.trans ((hage.symm.trans
    ((List.perm_insertionSort _ _).symm.append_left _)).append_right _)

theorem last_le_of_expired {e e' : CacheEntry} (he : limits.expired now e = true)
    (he' : limits.expired now e' = false) : e.lastAccessed ≤ e'.lastAccessed := by
  simp only [Limits.expired, decide_eq_true_eq, decide_eq_false_iff_not, not_and, not_lt] at he he'
  linarith [he.2, he' he.1]

/-- The entries that a pass has removed. -/
def EvictionResult.removed (r : EvictionResult) : List CacheEntry := r.evicted.map (·.entry)

theorem removed_evict : (evict limits isModelLoaded now entries).removed =
    limits.old now (eligible isModelLoaded entries) ++
      (limits.spend (sizeLeft entries (limits.old now (eligible isModelLoaded entries)))
        (limits.byUse now (eligible isModelLoaded entries))).1 := by
  simp [EvictionResult.removed, evict, Function.comp_def]

theorem mem_of_mem_removed {e : CacheEntry}
    (he : e ∈ (evict limits isModelLoaded now entries).removed) :
    e ∈ entries ∧ isModelLoaded e.modelId = false := by
  obtain ⟨kept, hsplit, -⟩ := limits.spend_spec
    (sizeLeft entries (limits.old now (eligible isModelLoaded entries)))
    (limits.byUse now (eligible isModelLoaded entries))
  rw [removed_evict, List.mem_append] at he
  rcases he with he | he
  · exact mem_eligible.mp (List.mem_filter.mp he).1
  · have hbyUse : e ∈ limits.byUse now (eligible isModelLoaded entries) := by
      rw [hsplit]
      exact List.mem_append_left kept he
    exact mem_eligible.mp (List.mem_filter.mp ((List.mem_insertionSort _).mp hbyUse)).1

/-- What a pass takes for its budget it takes from the front of the entries that outlive the first
pass, and what it keeps of them is within the budget or nothing. -/
theorem evict_split (limits : Limits) (isModelLoaded : String → Bool) (now : Rat)
    {entries : List CacheEntry} (hnodup : (entries.map (·.path)).Nodup) :
    ∃ taken kept, limits.byUse now (eligible isModelLoaded entries) = taken ++ kept ∧
      (evict limits isModelLoaded now entries).evicted =
        (limits.old now (eligible isModelLoaded entries)).map (⟨·, .ttl⟩) ++
          taken.map (⟨·, .budget⟩) ∧
      (evict limits isModelLoaded now entries).totalSizeAfter =
        sizeLeft entries (evict limits isModelLoaded now entries).removed ∧
      (0 < limits.maxGb →
        (evict limits isModelLoaded now entries).totalSizeAfter ≤ limits.maxBytes ∨ kept = []) ∧
      ∀ before e behind, taken = before ++ e :: behind → 0 < limits.maxGb ∧
        limits.maxBytes <
          sizeLeft entries (limits.old now (eligible isModelLoaded entries) ++ before) := by
  obtain ⟨kept, hsplit, htotal, hend, hover⟩ := limits.spend_spec
    (sizeLeft entries (limits.old now (eligible isModelLoaded entries)))
    (limits.byUse now (eligible isModelLoaded entries))
  have hperm := entries_perm limits isModelLoaded now entries
  -- the size without the old entries and a first part of the others that may go
  have hleft : ∀ before behind,
      limits.byUse now (eligible isModelLoaded entries) = before ++ behind →
      sizeLeft entries (limits.old now (eligible isModelLoaded entries) ++ before) =
        sizeLeft entries (limits.old now (eligible isModelLoaded entries)) - totalSize before := by
    intro before behind h
    have hall := sizeLeft_eq hnodup hperm
    rw [h, List.append_assoc, ← List.append_assoc] at hperm
    rw [sizeLeft_eq hnodup hperm, hall, h, List.append_assoc, totalSize_append before]
    ring
  refine ⟨_, kept, hsplit, rfl, ?_, hend, fun before e behind h => ?_⟩
  · rw [removed_evict, hleft _ kept hsplit]
    exact htotal
  · rw [hleft before (e :: behind ++ kept) (by rw [hsplit, h, List.append_assoc])]
    exact hover before e behind h

/-! ## What a pass is for -/

/-- The directory of the entry is that of a loaded model. -/
def HoldsLoaded (isModelLoaded : String → Bool) (e : CacheEntry) : Prop :=
  ∃ modelId, isModelLoaded modelId = true ∧ dirName e.isHf modelId = e.path.name

/-- What a pass may remove, in which order, where it stops and how it ends. -/
structure RightPass (limits : Limits) (isModelLoaded : String → Bool) (now : Rat)
    (entries : List CacheEntry) (r : EvictionResult) : Prop where
  scanned : ∀ e ∈ r.removed, e ∈ entries
  loaded_stay : ∀ e ∈ r.removed, ¬ HoldsLoaded isModelLoaded e
  /-- An entry goes before one that was used later, unless both go for their age. -/
  in_order : r.evicted.Pairwise fun v v' =>
    v.reason = .ttl ∧ v'.reason = .ttl ∨ v.entry.lastAccessed ≤ v'.entry.lastAccessed
  /-- Whatever goes was used no later than whatever may go and stays. -/
  least_recent : ∀ e ∈ r.removed, ∀ e' ∈ entries, e' ∉ r.removed →
    ¬ HoldsLoaded isModelLoaded e' → e.lastAccessed ≤ e'.lastAccessed
  ttl_expired : ∀ v ∈ r.evicted, v.reason = .ttl → limits.expired now v.entry = true
  /-- An entry goes for the budget while what is left is over it. -/
  stops : ∀ before v behind, r.evicted = before ++ v :: behind → v.reason = .budget →
    0 < limits.maxGb ∧ limits.maxBytes < sizeLeft entries (before.map (·.entry))
  total : r.totalSizeAfter = sizeLeft entries r.removed
  ends : 0 < limits.maxGb → r.totalSizeAfter ≤ limits.maxBytes ∨
    ∀ e ∈ entries, e ∉ r.removed → HoldsLoaded isModelLoaded e

theorem pairwise_byUse (limits : Limits) (now : Rat) (entries : List CacheEntry) :
    (limits.byUse now entries).Pairwise fun e e' => e.lastAccessed ≤ e'.lastAccessed :=
  List.pairwise_insertionSort _ _

theorem expired_of_mem_old {e : CacheEntry} (he : e ∈ limits.old now entries) :
    limits.expired now e = true :=
  (List.mem_filter.mp he).2

theorem expired_of_mem_byUse {e : CacheEntry} (he : e ∈ limits.byUse now entries) :
    limits.expired now e = false := by
  have hmem := (List.mem_filter.mp ((List.mem_insertionSort _).mp he)).2
  simpa using hmem

/-- An entry that may go and stays is one that the budget has spared. -/
theorem mem_kept {taken kept : List CacheEntry} {e : CacheEntry}
    (hsplit : limits.byUse now (eligible isModelLoaded entries) = taken ++ kept)
    (he : e ∈ entries) (hloaded : isModelLoaded e.modelId = false)
    (hstays : e ∉ limits.old now (eligible isModelLoaded entries) ++ taken) : e ∈ kept := by
  have hperm := entries_perm limits isModelLoaded now entries
  have hmem := hperm.mem_iff.mp he
  simp only [hsplit, List.mem_append] at hmem hstays
  rcases hmem with hold | (htaken | hkept) | hmem
  · exact absurd (Or.inl hold) hstays
  · exact absurd (Or.inr htaken) hstays
  · exact hkept
  · simp [hloaded] at hmem

/-- The place of a removal for the budget in the record of a pass. -/
theorem split_of_budget {old taken : List CacheEntry} {before behind : List EvictedModel}
    {v : EvictedModel}
    (h : old.map (EvictedModel.mk · .ttl) ++ taken.map (EvictedModel.mk · .budget) =
      before ++ v :: behind) (hv : v.reason = .budget) :
    ∃ before' behind', taken = before' ++ v.entry :: behind' ∧
      before.map (·.entry) = old ++ before' := by
  rcases List.append_eq_append_iff.mp h with ⟨middle, rfl, htaken⟩ | ⟨middle, hold, hrest⟩
  · obtain ⟨before', rest, rfl, rfl, hrest⟩ := List.map_eq_append_iff.mp htaken
    obtain ⟨e, behind', rfl, rfl, -⟩ := List.map_eq_cons_iff.mp hrest
    exact ⟨before', behind', rfl, by simp [Function.comp_def]⟩
  · cases middle with
    | nil =>
        obtain ⟨e, behind', rfl, rfl, -⟩ := List.map_eq_cons_iff.mp hrest.symm
        refine ⟨[], behind', rfl, ?_⟩
        rw [List.append_nil] at hold
        simp [← hold, Function.comp_def]
    | cons w middle =>
        -- a removal for its age is not one for the budget
        obtain ⟨rfl, -⟩ := List.cons.inj hrest
        have hmem : v ∈ old.map (EvictedModel.mk · .ttl) := by rw [hold]; simp
        obtain ⟨e, -, rfl⟩ := List.mem_map.mp hmem
        cases hv

/-- Every pass is right if what the evictor reads in the name of a loaded model's directory is the
id of a loaded model. -/
theorem evict_right (limits : Limits) (now : Rat) (hnodup : (entries.map (·.path)).Nodup)
    (hnames : ∀ e ∈ entries, dirName e.isHf e.modelId = e.path.name)
    (hread : ∀ e ∈ entries, HoldsLoaded isModelLoaded e → isModelLoaded e.modelId = true) :
    RightPass limits isModelLoaded now entries (evict limits isModelLoaded now entries) := by
  obtain ⟨taken, kept, hsplit, hevicted, htotal, hend, hover⟩ :=
    evict_split limits isModelLoaded now hnodup
  have hremoved : (evict limits isModelLoaded now entries).removed =
      limits.old now (eligible isModelLoaded entries) ++ taken := by
    simp [EvictionResult.removed, hevicted, Function.comp_def]
  have hsorted : (taken ++ kept).Pairwise fun e e' => e.lastAccessed ≤ e'.lastAccessed :=
    hsplit ▸ pairwise_byUse _ _ _
  have hyoung : ∀ e ∈ taken ++ kept, limits.expired now e = false := fun e he =>
    expired_of_mem_byUse (hsplit ▸ he)
  have hkept : ∀ e ∈ entries, e ∉ (evict limits isModelLoaded now entries).removed →
      e ∈ kept ∨ HoldsLoaded isModelLoaded e := by
    intro e he hstays
    rw [hremoved] at hstays
    cases hloaded : isModelLoaded e.modelId with
    | false => exact .inl (mem_kept hsplit he hloaded hstays)
    | true => exact .inr ⟨e.modelId, hloaded, hnames e he⟩
  refine ⟨fun e he => (mem_of_mem_removed he).1, ?_, ?_, ?_, ?_, ?_, htotal, ?_⟩
  · intro e he hholds
    obtain ⟨hmem, hunloaded⟩ := mem_of_mem_removed he
    exact Bool.false_ne_true (hunloaded.symm.trans (hread e hmem hholds))
  · rw [hevicted, List.pairwise_append]
    refine ⟨?_, ?_, ?_⟩
    · exact List.pairwise_map.mpr (List.pairwise_of_forall fun _ _ => .inl ⟨rfl, rfl⟩)
    · exact List.pairwise_map.mpr ((List.pairwise_append.mp hsorted).1.imp .inr)
    · rintro v hv v' hv'
      obtain ⟨e, he, rfl⟩ := List.mem_map.mp hv
      obtain ⟨e', he', rfl⟩ := List.mem_map.mp hv'
      exact .inr (last_le_of_expired (expired_of_mem_old he)
        (hyoung e' (List.mem_append_left _ he')))
  · intro e he e' he' hstays hfree
    have hspared := (hkept e' he' hstays).resolve_right hfree
    rw [hremoved, List.mem_append] at he
    rcases he with hold | htaken
    · exact last_le_of_expired (expired_of_mem_old hold)
        (hyoung e' (List.mem_append_right _ hspared))
    · exact (List.pairwise_append.mp hsorted).2.2 e htaken e' hspared
  · intro v hv hreason
    rw [hevicted, List.mem_append] at hv
    rcases hv with hv | hv
    · obtain ⟨e, he, rfl⟩ := List.mem_map.mp hv
      exact expired_of_mem_old he
    · obtain ⟨e, -, rfl⟩ := List.mem_map.mp hv
      cases hreason
  · intro before v behind h hreason
    rw [hevicted] at h
    obtain ⟨before', behind', htaken, hbefore⟩ := split_of_budget h hreason
    rw [hbefore]
    exact hover before' v.entry behind' htaken
  · intro hbudget
    refine (hend hbudget).imp_right fun hnone e he hstays => ?_
    subst hnone
    exact (hkept e he hstays).resolve_left List.not_mem_nil

/-- An entry of a model that is not loaded goes some time after its last use. -/
theorem removed_of_not_loaded {e : CacheEntry} (he : e ∈ entries)
    (hunloaded : isModelLoaded e.modelId = false) :
    e ∈ (evict ⟨0, 1⟩ isModelLoaded (e.lastAccessed + 3601) entries).removed := by
  rw [removed_evict, List.mem_append]
  refine .inl (List.mem_filter.mpr ⟨mem_eligible.mpr ⟨he, hunloaded⟩, ?_⟩)
  simp only [Limits.expired, decide_eq_true_eq]
  constructor <;> linarith

/-- Every pass over a cache is right exactly when each directory of a loaded model is that of a
loaded model whose id has no dash before a dash or a slash. -/
theorem scanAndEvict_right_iff (cache : CacheDirs) (isModelLoaded : String → Bool) :
    (∀ limits now, RightPass limits isModelLoaded now (scanEntries cache)
      (scanAndEvict limits isModelLoaded now cache)) ↔
    ∀ e ∈ scanEntries cache, HoldsLoaded isModelLoaded e →
      ∃ modelId, isModelLoaded modelId = true ∧ dirName e.isHf modelId = e.path.name ∧
        Plain modelId := by
  constructor
  · intro hright e he hholds
    refine ⟨e.modelId, ?_, dirName_of_mem_scanEntries he, plain_of_mem_scanEntries he⟩
    by_contra hunloaded
    exact (hright ⟨0, 1⟩ (e.lastAccessed + 3601)).loaded_stay e
      (removed_of_not_loaded he (Bool.eq_false_iff.mpr hunloaded)) hholds
  · intro hplain limits now
    refine evict_right limits now (paths_nodup cache) (fun e => dirName_of_mem_scanEntries) ?_
    intro e he hholds
    obtain ⟨modelId, hloaded, hname, hmodel⟩ := hplain e he hholds
    have hread : dirToModelId (dirName e.isHf e.modelId) e.isHf = e.modelId :=
      dirToModelId_dirName_iff.mpr (plain_of_mem_scanEntries he)
    rwa [← hread, dirName_of_mem_scanEntries he, ← hname, dirToModelId_dirName_iff.mpr hmodel]

/-- A cache of one model whose id has two dashes. -/
def dashedCache : CacheDirs where
  dirs := [⟨"/models/s3-cache", false,
    [{ name := "acme--whisper--ft", fileSizes := [1000], accessMarker := some 0 }], by decide⟩]

/-- Its entry, as the evictor reads it. -/
def dashedEntry : CacheEntry where
  modelId := "acme/whisper/ft"
  path := ⟨"/models/s3-cache", "acme--whisper--ft"⟩
  sizeBytes := 1000
  lastAccessed := 0
  isHf := false

theorem loaded_model_evicted :
    (scanAndEvict ⟨0, 24⟩ (· = "acme/whisper--ft") 100000 dashedCache).evicted =
      [⟨dashedEntry, .ttl⟩] ∧
    ¬ ∀ limits now, RightPass limits (· = "acme/whisper--ft") now (scanEntries dashedCache)
      (scanAndEvict limits (· = "acme/whisper--ft") now dashedCache) := by
  have hevicted : (scanAndEvict ⟨0, 24⟩ (· = "acme/whisper--ft") 100000 dashedCache).evicted =
      [⟨dashedEntry, .ttl⟩] := by
    decide +kernel
  have hloaded : HoldsLoaded (· = "acme/whisper--ft") dashedEntry :=
    ⟨"acme/whisper--ft", by decide, by decide⟩
  refine ⟨hevicted, fun hright => (hright ⟨0, 24⟩ 100000).loaded_stay dashedEntry ?_ hloaded⟩
  rw [EvictionResult.removed, hevicted]
  exact List.mem_singleton_self _

end Dalston.Engines.DiskCache
