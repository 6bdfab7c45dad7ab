import Dalston.Engines.DiarizeMerge

/-!
# Linking the speakers of chunks

Each chunk of long audio is diarized with labels of its own. The speakers whose voice could be
embedded are clustered over all chunks, and each cluster gets a global name in the order in which
the clusters first appear. The turns are then merged under these names.

## Implementation notes

The clustering is the library's: it answers one cluster for each embedding, or fails. The chunks of
a recording are numbered when they are cut, so their indexes differ.
-/

namespace Dalston.Engines.Linking

open Foundation Model Transcripts

/-- The diarization of one chunk, with the embeddings of those speakers that have one. -/
structure EmbeddedChunk (E : Type) extends ChunkResult where
  embeddings : Dict E
  embeddings_distinct : embeddings.Distinct

/-- The chunks of a recording. -/
structure Diarization (E : Type) where
  chunks : List (EmbeddedChunk E)
  indexes_nodup : (chunks.map fun c => c.spec.index).Nodup

/-- A local speaker: the index of its chunk, and its label there. -/
abbrev LocalSpeaker := Nat × String

/-- One cluster for each of the embeddings. -/
abbrev Labels {E : Type} (centroids : List E) :=
  { labels : List Int // labels.length = centroids.length }

abbrev Clustering (E : Type) := (centroids : List E) → Option (Labels centroids)

/-- `f"SPEAKER_{next_global:02d}"`. -/
def globalName (nextGlobal : Nat) : String :=
  "SPEAKER_" ++ String.ofList (List.replicate (2 - (Nat.toDigits 10 nextGlobal).length) '0' ++
    Nat.toDigits 10 nextGlobal)

/-- The names given to the clusters so far, and to the local speakers. -/
structure Naming where
  globalNameForCluster : Int → Option String := fun _ => none
  nextGlobal : Nat := 0
  labelMaps : LabelMaps := fun _ => []

/-- The local speaker gets a name. -/
def rename (labelMaps : LabelMaps) (who : LocalSpeaker) (name : String) : LabelMaps :=
  Function.update labelMaps who.1 ((labelMaps who.1).set who.2 name)

/-- A local speaker gets the name of its cluster, which is a new one if the cluster is. -/
def Naming.add (g : Naming) (a : LocalSpeaker × Int) : Naming :=
  match g.globalNameForCluster a.2 with
  | some name => { g with labelMaps := rename g.labelMaps a.1 name }
  | none =>
    { globalNameForCluster :=
        Function.update g.globalNameForCluster a.2 (some (globalName g.nextGlobal))
      nextGlobal := g.nextGlobal + 1
      labelMaps := rename g.labelMaps a.1 (globalName g.nextGlobal) }

namespace Diarization

variable {E : Type}

def provenance (d : Diarization E) : List LocalSpeaker :=
  d.chunks.flatMap fun c => c.embeddings.map fun kv => (c.spec.index, kv.1)

def allCentroids (d : Diarization E) : List E :=
  d.chunks.flatMap fun c => c.embeddings.map Prod.snd

/-- `_identity_maps`. -/
def identityMaps (d : Diarization E) : LabelMaps := fun i =>
  match d.chunks.find? fun c => c.spec.index = i with
  | none => []
  | some c => c.speakers.foldl (fun labelMap s => labelMap.set s s) []

/-- The clusters of the speakers with an embedding, if there are two of these and the clustering
does not fail. -/
def clusters (d : Diarization E) (fitPredict : Clustering E) : Option (Labels d.allCentroids) :=
  if d.allCentroids.length < 2 then none else fitPredict d.allCentroids

def linkSpeakers (d : Diarization E) (fitPredict : Clustering E) : LabelMaps :=
  match d.clusters fitPredict with
  | none => d.identityMaps
  | some labels => ((d.provenance.zip labels.val).foldl Naming.add {}).labelMaps

/-- What the merge makes of the chunks with their speakers linked. -/
def merged (d : Diarization E) (fitPredict : Clustering E) (overlap : Rat) :
    List String × List SpeakerTurn :=
  mergeChunks (d.chunks.map (·.toChunkResult)) (d.linkSpeakers fitPredict) overlap

/-- The name of a local speaker in the merged turns. -/
def nameOf (d : Diarization E) (fitPredict : Clustering E) (who : LocalSpeaker) : String :=
  (d.linkSpeakers fitPredict who.1).getD who.2 who.2

end Diarization

/-! ## Names of clusters -/

theorem globalName_injective : Function.Injective globalName := by
  intro m n h
  have hdigits := congrArg (fun s : String => Nat.ofDigitChars 10 (s.toList.drop 8) 0) h
  simpa [globalName, Nat.ofDigitChars_append, Nat.ofDigitChars_replicate_zero,
    Nat.ofDigitChars_ten_toDigits] using hdigits

theorem get?_rename (labelMaps : LabelMaps) (who other : LocalSpeaker) (name : String) :
    (rename labelMaps who name other.1).get? other.2 =
      if who = other then some name else (labelMaps other.1).get? other.2 := by
  obtain ⟨i, s⟩ := who
  obtain ⟨j, t⟩ := other
  by_cases hij : i = j
  · subst hij
    simp only [rename, Function.update_self, Dict.get?_set, Prod.mk.injEq, true_and]
  · simp [rename, hij, Function.update_of_ne (Ne.symm hij)]

/-- The name of a cluster once one of its speakers has been added. -/
def Naming.nameFor (g : Naming) (cluster : Int) : String :=
  (g.globalNameForCluster cluster).getD (globalName g.nextGlobal)

theorem Naming.add_globalNameForCluster (g : Naming) (a : LocalSpeaker × Int) (cluster : Int) :
    (g.add a).globalNameForCluster cluster =
      if cluster = a.2 then some (g.nameFor a.2) else g.globalNameForCluster cluster := by
  cases hname : g.globalNameForCluster a.2 with
  | some name =>
      by_cases hc : cluster = a.2
      · simp [add, nameFor, hc, hname]
      · simp [add, hc, hname]
  | none => simp [add, nameFor, hname, Function.update_apply]

theorem Naming.get?_add_labelMaps (g : Naming) (a : LocalSpeaker × Int) (other : LocalSpeaker) :
    ((g.add a).labelMaps other.1).get? other.2 =
      if a.1 = other then some (g.nameFor a.2) else (g.labelMaps other.1).get? other.2 := by
  rw [← get?_rename]
  cases hname : g.globalNameForCluster a.2 <;> simp [add, nameFor, hname]

theorem Naming.le_add_nextGlobal (g : Naming) (a : LocalSpeaker × Int) :
    g.nextGlobal ≤ (g.add a).nextGlobal := by
  cases hname : g.globalNameForCluster a.2 <;> simp [add, hname]

theorem Naming.add_nextGlobal {g : Naming} {a : LocalSpeaker × Int}
    (hname : g.globalNameForCluster a.2 = none) : (g.add a).nextGlobal = g.nextGlobal + 1 := by
  simp [add, hname]

/-- The names given to some local speakers: each has that of its cluster, and no two clusters have
the same. -/
structure Naming.Sound (done : List (LocalSpeaker × Int)) (g : Naming) : Prop where
  named : ∀ a ∈ done, ∃ name, g.globalNameForCluster a.2 = some name ∧
    (g.labelMaps a.1.1).get? a.1.2 = some name
  given : ∀ cluster name, g.globalNameForCluster cluster = some name →
    ∃ k < g.nextGlobal, name = globalName k
  apart : ∀ cluster cluster' name, g.globalNameForCluster cluster = some name →
    g.globalNameForCluster cluster' = some name → cluster = cluster'

theorem Naming.Sound.empty : Naming.Sound [] {} where
  named := by simp
  given := by simp
  apart := by simp

/-- A cluster that has the name for another one is that one. -/
theorem Naming.Sound.eq_of_nameFor {done : List (LocalSpeaker × Int)} {g : Naming}
    (h : g.Sound done) {cluster cluster' : Int}
    (hname : g.globalNameForCluster cluster' = some (g.nameFor cluster)) : cluster' = cluster := by
  cases hold : g.globalNameForCluster cluster with
  | some name =>
      rw [nameFor, hold] at hname
      exact h.apart cluster' cluster name hname hold
  | none =>
      rw [nameFor, hold] at hname
      obtain ⟨k, hk, heq⟩ := h.given cluster' _ hname
      exact absurd (globalName_injective heq) hk.ne'

theorem Naming.Sound.add {done : List (LocalSpeaker × Int)} {g : Naming} (h : g.Sound done)
    {a : LocalSpeaker × Int} (hnew : a.1 ∉ done.map Prod.fst) :
    (g.add a).Sound (done ++ [a]) where
  named b hb := by
    rw [g.add_globalNameForCluster, g.get?_add_labelMaps]
    rcases List.mem_append.mp hb with hb | hb
    · have hother : a.1 ≠ b.1 := fun hab => hnew (hab ▸ List.mem_map_of_mem hb)
      obtain ⟨name, hcluster, hlabel⟩ := h.named b hb
      refine ⟨name, ?_, by rw [if_neg hother, hlabel]⟩
      by_cases hc : b.2 = a.2
      · rw [if_pos hc, nameFor, ← hc, hcluster, Option.getD_some]
      · rw [if_neg hc, hcluster]
    · obtain rfl := List.mem_singleton.mp hb
      exact ⟨_, if_pos rfl, if_pos rfl⟩
  given cluster name hcluster := by
    rw [g.add_globalNameForCluster] at hcluster
    split at hcluster
    · obtain rfl := Option.some.inj hcluster
      cases hold : g.globalNameForCluster a.2 with
      | some name =>
          obtain ⟨k, hk, heq⟩ := h.given a.2 name hold
          exact ⟨k, hk.trans_le (g.le_add_nextGlobal a), by rw [nameFor, hold]; exact heq⟩
      | none =>
          exact ⟨g.nextGlobal, by rw [add_nextGlobal hold]; exact Nat.lt_succ_self _,
            by rw [nameFor, hold]; rfl⟩
    · obtain ⟨k, hk, heq⟩ := h.given cluster name hcluster
      exact ⟨k, hk.trans_le (g.le_add_nextGlobal a), heq⟩
  apart cluster cluster' name hcluster hcluster' := by
    rw [g.add_globalNameForCluster] at hcluster hcluster'
    split at hcluster <;> split at hcluster'
    · simp_all only
    · rename_i hc _
      rw [← hcluster] at hcluster'
      exact hc.trans (h.eq_of_nameFor hcluster').symm
    · rename_i _ hc
      rw [← hcluster'] at hcluster
      exact (h.eq_of_nameFor hcluster).trans hc.symm
    · exact h.apart cluster cluster' name hcluster hcluster'

theorem Naming.Sound.foldl {done todo : List (LocalSpeaker × Int)} {g : Naming} (h : g.Sound done)
    (hnodup : ((done ++ todo).map Prod.fst).Nodup) :
    (todo.foldl Naming.add g).Sound (done ++ todo) := by
  induction todo generalizing done g with
  | nil => simpa using h
  | cons a rest ih =>
      have hnew : a.1 ∉ done.map Prod.fst := by
        rw [List.map_append, List.map_cons] at hnodup
        exact fun hmem => hnodup.disjoint hmem List.mem_cons_self
      have hstep := ih (h.add hnew) (by rwa [List.append_assoc])
      rwa [List.append_assoc] at hstep

/-- Adding others leaves a local speaker without a name. -/
theorem Naming.get?_foldl_of_ne {todo : List (LocalSpeaker × Int)} {who : LocalSpeaker}
    (hne : ∀ a ∈ todo, a.1 ≠ who) (g : Naming) :
    ((todo.foldl Naming.add g).labelMaps who.1).get? who.2 = (g.labelMaps who.1).get? who.2 := by
  induction todo generalizing g with
  | nil => rfl
  | cons a rest ih =>
      rw [List.foldl_cons, ih fun b hb => hne b (List.mem_cons_of_mem _ hb),
        g.get?_add_labelMaps, if_neg (hne a List.mem_cons_self)]

/-! ## Linked speakers -/

/-- A map of labels to themselves stays one. -/
theorem getD_identity {m : Dict String} (hm : ∀ s v, m.get? s = some v → v = s)
    (speakers : List String) (s : String) :
    (speakers.foldl (fun labelMap s => labelMap.set s s) m).getD s s = s := by
  induction speakers generalizing m with
  | nil =>
      cases hs : m.get? s with
      | none => simp [Dict.getD, hs]
      | some v => simp [Dict.getD, hs, hm s v hs]
  | cons t rest ih =>
      refine ih fun s v hs => ?_
      rw [Dict.get?_set] at hs
      split at hs
      · rename_i hst
        rw [← hst]
        exact (Option.some.inj hs).symm
      · exact hm s v hs

namespace Diarization

variable {E : Type} (d : Diarization E) (fitPredict : Clustering E)

theorem length_provenance : d.provenance.length = d.allCentroids.length := by
  simp [provenance, allCentroids, List.length_flatMap]

theorem provenance_nodup : d.provenance.Nodup := by
  rw [provenance, List.nodup_flatMap]
  refine ⟨fun c _ => ?_, (List.pairwise_map.mp d.indexes_nodup).imp fun hne => ?_⟩
  · refine .of_map Prod.snd ?_
    rw [List.map_map]
    exact c.embeddings_distinct
  · intro who hwho hwho'
    obtain ⟨kv, -, rfl⟩ := List.mem_map.mp hwho
    obtain ⟨kv', -, h⟩ := List.mem_map.mp hwho'
    exact hne (congrArg Prod.fst h).symm

variable {fitPredict}

/-- Without clusters every local speaker keeps its label. -/
theorem nameOf_of_unclustered (h : d.clusters fitPredict = none) (who : LocalSpeaker) :
    d.nameOf fitPredict who = who.2 := by
  rw [nameOf, linkSpeakers, h]
  change (d.identityMaps who.1).getD who.2 who.2 = who.2
  rw [identityMaps]
  split
  · rfl
  · rename_i c _
    have hsame := getD_identity (m := []) (fun _ _ hs => by simp at hs) c.speakers who.2
    exact hsame

variable {labels : Labels d.allCentroids}

theorem sound_naming (labels : Labels d.allCentroids) :
    ((d.provenance.zip labels.val).foldl Naming.add {}).Sound (d.provenance.zip labels.val) := by
  have hkeys : (d.provenance.zip labels.val).map Prod.fst = d.provenance :=
    List.map_fst_zip (by rw [length_provenance, labels.2])
  exact Naming.Sound.empty.foldl ((congrArg List.Nodup hkeys).mpr d.provenance_nodup)

theorem nameOf_of_mem (h : d.clusters fitPredict = some labels) {a : LocalSpeaker × Int}
    (ha : a ∈ d.provenance.zip labels.val) :
    ((d.provenance.zip labels.val).foldl Naming.add {}).globalNameForCluster a.2 =
      some (d.nameOf fitPredict a.1) := by
  obtain ⟨name, hcluster, hlabel⟩ := (d.sound_naming labels).named a ha
  rw [hcluster, nameOf, linkSpeakers, h, Dict.getD]
  simp only [hlabel, Option.getD_some]

/-- The clustered speakers, of one chunk or of two, share a name exactly if they share a cluster. -/
theorem nameOf_eq_iff (h : d.clusters fitPredict = some labels) {a b : LocalSpeaker × Int}
    (ha : a ∈ d.provenance.zip labels.val) (hb : b ∈ d.provenance.zip labels.val) :
    d.nameOf fitPredict a.1 = d.nameOf fitPredict b.1 ↔ a.2 = b.2 := by
  have hnameA := d.nameOf_of_mem h ha
  have hnameB := d.nameOf_of_mem h hb
  constructor
  · intro heq
    rw [← heq] at hnameB
    exact (d.sound_naming labels).apart a.2 b.2 _ hnameA hnameB
  · intro heq
    rw [heq, hnameB] at hnameA
    exact (Option.some.inj hnameA).symm

/-- A local speaker without an embedding keeps its label. -/
theorem nameOf_of_notMem {who : LocalSpeaker} (hwho : who ∉ d.provenance) :
    d.nameOf fitPredict who = who.2 := by
  cases h : d.clusters fitPredict with
  | none => exact d.nameOf_of_unclustered h who
  | some labels =>
      have hkeys : ∀ a ∈ d.provenance.zip labels.val, a.1 ≠ who := fun a ha heq =>
        hwho (heq ▸ (List.of_mem_zip ha).1)
      rw [nameOf, linkSpeakers, h, Dict.getD]
      simp only [Naming.get?_foldl_of_ne hkeys, Dict.get?_nil, Option.getD_none]

end Diarization

/-! ## Merged turns -/

theorem exists_sublist_filterMap {α β : Type*} (f : α → Option β) (l : List α) :
    ∃ kept, kept.Sublist l ∧ List.Forall₂ (fun a b => f a = some b) kept (l.filterMap f) := by
  induction l with
  | nil => exact ⟨[], .slnil, .nil⟩
  | cons a rest ih =>
      obtain ⟨kept, hsub, hkept⟩ := ih
      cases ha : f a with
      | none => exact ⟨kept, hsub.cons a, by rwa [List.filterMap_cons_none ha]⟩
      | some b =>
          refine ⟨a :: kept, hsub.cons_cons a, ?_⟩
          rw [List.filterMap_cons_some ha]
          exact .cons ha hkept

namespace Diarization

variable {E : Type} (d : Diarization E) (fitPredict : Clustering E)

/-- The turns of all chunks, each with its chunk. -/
def sourceTurns : List (EmbeddedChunk E × SpeakerTurn) :=
  d.chunks.flatMap fun c => c.turns.map fun t => (c, t)

/-- A merged turn is what is left of a turn of a chunk: it has the name of that turn's speaker and
lies within the turn on the timeline. -/
structure ComesFrom (source : EmbeddedChunk E × SpeakerTurn) (turn : SpeakerTurn) : Prop where
  speaker : turn.speaker = d.nameOf fitPredict (source.1.spec.index, source.2.speaker)
  le_start : roundMs (source.2.start + source.1.spec.start) ≤ turn.start
  end_le : turn.end ≤ roundMs (source.2.end + source.1.spec.start)
  confidence : turn.confidence = source.2.confidence

/-- The turns of the chunks that are kept are merged in the order of their times. -/
structure MergesTurns (overlap : Rat) (kept : List (EmbeddedChunk E × SpeakerTurn))
    (turns : List SpeakerTurn) : Prop where
  sublist : kept.Sublist d.sourceTurns
  all : ¬ (1 < d.chunks.length ∧ 0 < overlap) → kept = d.sourceTurns
  from_kept : List.Forall₂ (d.ComesFrom fitPredict) kept turns
  sorted : (d.merged fitPredict overlap).2 = sortTurns turns

/-- A turn of a chunk on the timeline. -/
def tagSource (source : EmbeddedChunk E × SpeakerTurn) : TaggedTurn :=
  tagTurn (d.linkSpeakers fitPredict) source.1.toChunkResult source.2

theorem tagTurns_chunks :
    tagTurns (d.linkSpeakers fitPredict) (d.chunks.map (·.toChunkResult)) =
      d.sourceTurns.map (d.tagSource fitPredict) := by
  simp only [tagTurns, sourceTurns, List.flatMap_map, List.map_flatMap, List.map_map]
  rfl

theorem comesFrom_tagSource (source : EmbeddedChunk E × SpeakerTurn) :
    d.ComesFrom fitPredict source (d.tagSource fitPredict source).turn :=
  ⟨rfl, le_rfl, le_rfl, rfl⟩

theorem comesFrom_of_keepTurn {ranges : List (Nat × (Rat × Rat))}
    {source : EmbeddedChunk E × SpeakerTurn} {u : TaggedTurn}
    (h : keepTurn ranges (d.tagSource fitPredict source) = some u) :
    d.ComesFrom fitPredict source u.turn := by
  cases hrange : rangeOf ranges (d.tagSource fitPredict source).chunkIdx with
  | none =>
      rw [keepTurn, hrange] at h
      rw [← Option.some.inj h]
      exact d.comesFrom_tagSource fitPredict source
  | some range =>
      obtain ⟨-, rfl⟩ := (keepTurn_eq_some hrange).mp h
      refine ⟨rfl, ?_, ?_, rfl⟩
      · have hstart := roundMs_mono (le_max_left (d.tagSource fitPredict source).turn.start range.1)
        rwa [tagSource, tagTurn, roundMs_roundMs] at hstart
      · have hend := roundMs_mono (min_le_left (d.tagSource fitPredict source).turn.end range.2)
        rwa [tagSource, tagTurn, roundMs_roundMs] at hend

theorem exists_mergesTurns (overlap : Rat) :
    ∃ kept turns, d.MergesTurns fitPredict overlap kept turns := by
  by_cases hresolve : 1 < d.chunks.length ∧ 0 < overlap
  · have hmerged : mergedTurns (d.chunks.map (·.toChunkResult)) (d.linkSpeakers fitPredict)
        overlap = d.sourceTurns.filterMap fun source =>
          keepTurn (chunkRangeMap overlap (d.chunks.map (·.toChunkResult)))
            (d.tagSource fitPredict source) := by
      rw [mergedTurns, List.length_map, if_pos hresolve, resolveOverlaps, tagTurns_chunks,
        List.filterMap_map]
      rfl
    obtain ⟨kept, hsub, hkept⟩ := exists_sublist_filterMap (fun source =>
      keepTurn (chunkRangeMap overlap (d.chunks.map (·.toChunkResult)))
        (d.tagSource fitPredict source)) d.sourceTurns
    refine ⟨kept, (mergedTurns (d.chunks.map (·.toChunkResult)) (d.linkSpeakers fitPredict)
      overlap).map TaggedTurn.turn, hsub, fun h => absurd hresolve h, ?_, rfl⟩
    rw [hmerged, List.forall₂_map_right_iff]
    exact hkept.imp fun _ _ h => d.comesFrom_of_keepTurn fitPredict h
  · refine ⟨d.sourceTurns, d.sourceTurns.map fun source => (d.tagSource fitPredict source).turn,
      .refl _, fun _ => rfl, ?_, ?_⟩
    · exact List.forall₂_map_right_iff.mpr
        (List.forall₂_same.mpr fun source _ => d.comesFrom_tagSource fitPredict source)
    · rw [merged, mergeChunks, mergedTurns, List.length_map, if_neg hresolve, tagTurns_chunks,
        List.map_map]
      rfl

theorem mem_speakers {overlap : Rat} {name : String} :
    name ∈ (d.merged fitPredict overlap).1 ↔
      name ∈ (d.merged fitPredict overlap).2.map (·.speaker) := by
  simp only [merged, mergeChunks, List.mem_insertionSort, List.mem_dedup]

end Diarization

/-- Two local speakers of a recording have the same name only if they are in one cluster. -/
def NamesApart {E : Type} (d : Diarization E) (fitPredict : Clustering E) : Prop :=
  ∀ c ∈ d.chunks, ∀ t ∈ c.turns, ∀ c' ∈ d.chunks, ∀ t' ∈ c'.turns,
    (c.spec.index, t.speaker) ≠ (c'.spec.index, t'.speaker) →
    d.nameOf fitPredict (c.spec.index, t.speaker) =
      d.nameOf fitPredict (c'.spec.index, t'.speaker) →
    ∃ labels, d.clusters fitPredict = some labels ∧
      ∃ cluster, ((c.spec.index, t.speaker), cluster) ∈ d.provenance.zip labels.val ∧
        ((c'.spec.index, t'.speaker), cluster) ∈ d.provenance.zip labels.val

/-- Clustered speakers share a name exactly if they share a cluster, speakers of one chunk without
embeddings share none, and without clusters every local speaker keeps its label. Every merged turn
has the name of the speaker of the turn that it comes from. -/
theorem linkSpeakers_names {E : Type} (d : Diarization E) (fitPredict : Clustering E)
    (overlap : Rat) :
    (∀ labels, d.clusters fitPredict = some labels →
      ∀ a ∈ d.provenance.zip labels.val, ∀ b ∈ d.provenance.zip labels.val,
        (d.nameOf fitPredict a.1 = d.nameOf fitPredict b.1 ↔ a.2 = b.2)) ∧
    (∀ index s t, (index, s) ∉ d.provenance → (index, t) ∉ d.provenance →
      d.nameOf fitPredict (index, s) = d.nameOf fitPredict (index, t) → s = t) ∧
    (d.clusters fitPredict = none → ∀ who, d.nameOf fitPredict who = who.2) ∧
    (∃ kept turns, d.MergesTurns fitPredict overlap kept turns) ∧
    ∀ name, name ∈ (d.merged fitPredict overlap).1 ↔
      name ∈ (d.merged fitPredict overlap).2.map (·.speaker) := by
  refine ⟨fun _ h _ ha _ hb => d.nameOf_eq_iff h ha hb, fun index s t hs ht hname => ?_,
    fun h => d.nameOf_of_unclustered h, d.exists_mergesTurns fitPredict overlap,
    fun _ => d.mem_speakers fitPredict⟩
  rwa [d.nameOf_of_notMem hs, d.nameOf_of_notMem ht] at hname

/-- Two chunks whose speakers have no embeddings and the same label. -/
def unembedded : Diarization Unit where
  chunks :=
    [{ spec := ⟨0, 0, 900⟩, speakers := ["SPEAKER_00"], embeddings := []
       turns := [{ speaker := "SPEAKER_00", start := 1, «end» := 5, confidence := none }]
       embeddings_distinct := List.nodup_nil },
     { spec := ⟨1, 870, 1770⟩, speakers := ["SPEAKER_00"], embeddings := []
       turns := [{ speaker := "SPEAKER_00", start := 100, «end» := 105, confidence := none }]
       embeddings_distinct := List.nodup_nil }]
  indexes_nodup := by decide

theorem unlinked_speakers_share_name :
    (unembedded.merged (fun _ => none) 30).2.map (·.speaker) = ["SPEAKER_00", "SPEAKER_00"] ∧
    ¬ NamesApart unembedded (fun _ => none) := by
  refine ⟨by decide +kernel, fun h => ?_⟩
  obtain ⟨labels, hlabels, -⟩ := h _ List.mem_cons_self _ List.mem_cons_self
    _ (List.mem_cons_of_mem _ List.mem_cons_self) _ List.mem_cons_self (by decide) (by decide)
  exact absurd hlabels (by simp [Diarization.clusters])

end Dalston.Engines.Linking
