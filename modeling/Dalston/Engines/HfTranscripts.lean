import Dalston.Engines.TranscriptMerge
import Dalston.Model.TextWrap

/-!
# Transcripts of a pipeline

A pipeline gives a text and chunks with timestamps, each of which may lack its start or its end.
The transcript has one segment, with a word for each chunk that is not blank. Before an alignment a
segment that is too long is split behind the words that reach the longest duration.

## Implementation notes

Times are rationals. A word or a segment refuses times that are negative; the times that are given
here are not.
-/

namespace Dalston.Engines.HfAsr

open Foundation Model
open Model.TextWrap (Text isSpace strip)

/-! ## The result of a pipeline -/

structure Chunk where
  text : Option Text
  timestamp : Option (Option Rat × Option Rat)

structure PipelineResult where
  text : Option Text
  chunks : Option (List Chunk)

/-- `chunk.get("text", "").strip()`. -/
def Chunk.stripped (c : Chunk) : Text := strip (c.text.getD [])

/-- The start and the end of a chunk, where they are given. -/
def Chunk.times (c : Chunk) : List (Option Rat) :=
  [c.timestamp.bind (·.1), c.timestamp.bind (·.2)]

def Chunk.start (c : Chunk) : Rat := (c.timestamp.bind (·.1)).getD 0

def Chunk.stop (c : Chunk) : Rat := (c.timestamp.bind (·.2)).getD 0

section Normalize

/-- The words of the chunks that are not blank. -/
def wordsOf : List Chunk → Except MergeError (List TranscriptWord)
  | [] => .ok []
  | c :: rest =>
    if c.stripped.isEmpty then wordsOf rest
    else do
      let w ← buildWord c.stripped (roundMs c.start) (roundMs c.stop) none .attention none none []
      let words ← wordsOf rest
      return w :: words

/-- `language or "auto"`. -/
def languageOrAuto : Option String → String
  | some language => if language = "" then "auto" else language
  | none => "auto"

/-- The one segment of a transcript. Without words it has no times, be there no chunks or only
blank ones. -/
def segmentOf (text : Text) (words : List TranscriptWord) : Except MergeError TranscriptSegment :=
  match words.head?, words.getLast? with
  | some first, some last =>
    buildSegment (roundMs first.start) (roundMs last.end) text (some words) none none none none
      none []
  | _, _ => buildSegment 0 0 text none none none none none none []

/-- `_normalize_output`. -/
def normalizeOutput (engineId : String) (result : PipelineResult) (language : Option String)
    (channel : Option Int) : Except MergeError Transcript := do
  let text := strip (result.text.getD [])
  let words ← wordsOf (result.chunks.getD [])
  let seg ← segmentOf text words
  return buildTranscript text [seg] (languageOrAuto language) engineId none
    (if words.isEmpty then .unknown else .attention) channel []

/-- `_normalize_asr_output`, the same code in the engine that also aligns. -/
def normalizeAsrOutput (engineId : String) (result : PipelineResult) (language : Option String)
    (channel : Option Int) : Except MergeError Transcript :=
  normalizeOutput engineId result language channel

end Normalize

/-! ## The split for the alignment -/

section Split

structure InputSegment where
  start : Rat
  «end» : Rat
  text : Text
  deriving DecidableEq

variable (maxDuration : Rat)

/-- The piece of some words, unless its text is blank. -/
def pieceOf (start stop : Rat) (words : List TranscriptWord) : List InputSegment :=
  let text := strip (joinWith ' ' (words.map (·.text)))
  if text.isEmpty then [] else [⟨roundMs start, roundMs stop, text⟩]

/-- The pieces from the words on, with the words taken since the last cut and its time. -/
def splitFrom (stop : Rat) : List TranscriptWord → Rat → List TranscriptWord → List InputSegment
  | taken, start, [] => if taken.isEmpty then [] else pieceOf start stop taken
  | taken, start, w :: rest =>
    if maxDuration ≤ w.end - start then
      pieceOf start w.end (taken ++ [w]) ++ splitFrom stop [] w.end rest
    else splitFrom stop (taken ++ [w]) start rest

def splitSegment (seg : TranscriptSegment) : List InputSegment :=
  let words := seg.words.getD []
  if seg.end - seg.start ≤ maxDuration ∨ words.isEmpty then [⟨seg.start, seg.end, seg.text⟩]
  else splitFrom maxDuration seg.end [] seg.start words

/-- `_split_long_segments`. -/
def splitLongSegments (segments : List TranscriptSegment) : List InputSegment :=
  segments.flatMap (splitSegment maxDuration)

end Split

/-! ## The words -/

section Words

def Chunk.spoken (c : Chunk) : Bool := !c.stripped.isEmpty

/-- The word of a chunk, where a time that is missing is zero. -/
def Chunk.word (c : Chunk) : TranscriptWord where
  text := c.stripped
  start := roundMs c.start
  «end» := roundMs c.stop
  confidence := none
  alignmentMethod := .attention
  language := none
  characters := none
  phonemes := none
  metadata := []

/-- The chunks that are not blank, in order. -/
def PipelineResult.spoken (result : PipelineResult) : List Chunk :=
  (result.chunks.getD []).filter Chunk.spoken

theorem wordsOf_eq (chunks : List Chunk) :
    wordsOf chunks = .ok ((chunks.filter Chunk.spoken).map Chunk.word) := by
  induction chunks with
  | nil => rfl
  | cons c rest ih =>
      cases hblank : c.stripped.isEmpty with
      | true =>
          rw [wordsOf, if_pos hblank, ih,
            List.filter_cons_of_neg (by simp [Chunk.spoken, hblank])]
      | false =>
          rw [wordsOf, if_neg (by simp [hblank]), ih,
            List.filter_cons_of_pos (by simp [Chunk.spoken, hblank])]
          rfl

/-- The times of words in order, each start before its end. -/
def wordTimes (words : List TranscriptWord) : List Rat :=
  words.flatMap fun w => [w.start, w.end]

theorem wordTimes_words (chunks : List Chunk) :
    wordTimes (chunks.map Chunk.word) =
      (chunks.flatMap Chunk.times).map fun x => roundMs (x.getD 0) := by
  induction chunks with
  | nil => rfl
  | cons c rest ih =>
      rw [List.flatMap_cons, List.map_append, ← ih]
      rfl

end Words

/-! ## The order of the times -/

section Order

/-- Values in order of which some are missing stay in order under a default below all of them,
exactly if a value that is missing does not come after one that is above the default. -/
theorem pairwise_filled_iff {A B : Type} [Preorder A] [Preorder B] {f : A → B} (hf : Monotone f)
    {default : A} {xs : List (Option A)} (hlow : ∀ a ∈ xs.reduceOption, default ≤ a)
    (hsorted : xs.reduceOption.Pairwise (· ≤ ·)) :
    (xs.map fun x => f (x.getD default)).Pairwise (· ≤ ·) ↔
      xs.Pairwise fun x y => y = none → ∀ a ∈ x, f a ≤ f default := by
  rw [List.pairwise_map]
  constructor
  · intro h
    refine h.imp fun {x y} hxy hnone a ha => ?_
    rw [hnone, Option.mem_def.mp ha] at hxy
    exact hxy
  · intro h
    have hgiven : xs.Pairwise fun x y => ∀ a ∈ x, ∀ b ∈ y, a ≤ b :=
      List.pairwise_filterMap.mp hsorted
    refine (h.and hgiven).imp_of_mem fun {x y} hx hy hxy => ?_
    cases y with
    | none =>
        cases x with
        | none => exact le_rfl
        | some a => exact hxy.1 rfl a rfl
    | some b =>
        cases x with
        | none => exact hf (hlow b (List.reduceOption_mem_iff.mpr hy))
        | some a => exact hf (hxy.2 a rfl b rfl)

/-- A segment and its words end after they start, and the times of the words are in order. -/
structure Ordered (seg : TranscriptSegment) : Prop where
  proper : seg.start ≤ seg.end
  words : ∀ w ∈ seg.words.getD [], w.start ≤ w.end
  times : (wordTimes (seg.words.getD [])).Pairwise (· ≤ ·)

/-- A segment has its words, and reaches from the first of their times to the last. -/
structure Encloses (text : Text) (words : List TranscriptWord) (seg : TranscriptSegment) :
    Prop where
  start : seg.start = ((wordTimes words).head?.map roundMs).getD 0
  stop : seg.end = ((wordTimes words).getLast?.map roundMs).getD 0
  text : seg.text = text
  words : seg.words.getD [] = words

theorem getLast?_wordTimes (words : List TranscriptWord) :
    (wordTimes words).getLast? = words.getLast?.map (·.end) := by
  cases words using List.reverseRecOn with
  | nil => rfl
  | append_singleton words w => simp [wordTimes]

theorem exists_segmentOf (text : Text) (words : List TranscriptWord) :
    ∃ seg, segmentOf text words = .ok seg ∧ Encloses text words seg := by
  cases words with
  | nil => exact ⟨_, rfl, rfl, rfl, rfl, rfl⟩
  | cons w rest =>
      have hlast := List.getLast?_eq_some_getLast (List.cons_ne_nil w rest)
      refine ⟨_, by rw [segmentOf, hlast]; rfl, rfl, ?_, rfl, rfl⟩
      rw [getLast?_wordTimes, hlast]
      rfl

theorem Encloses.ordered_iff {text : Text} {words : List TranscriptWord} {seg : TranscriptSegment}
    (h : Encloses text words seg) : Ordered seg ↔ (wordTimes words).Pairwise (· ≤ ·) := by
  constructor
  · intro hordered
    rw [← h.words]
    exact hordered.times
  · intro hsorted
    refine ⟨?_, ?_, by rwa [h.words]⟩
    · rw [h.start, h.stop]
      cases htimes : wordTimes words with
      | nil => exact le_refl (0 : Rat)
      | cons x rest =>
          rw [htimes, List.pairwise_cons] at hsorted
          rw [List.head?_cons, List.getLast?_cons]
          refine roundMs_mono ?_
          cases hlast : rest.getLast? with
          | none => exact le_rfl
          | some y => exact hsorted.1 y (List.mem_of_getLast? hlast)
    · intro w hw
      rw [h.words] at hw
      have hpair := (List.pairwise_flatMap.mp hsorted).1 w hw
      simpa using hpair

end Order

/-! ## The pieces -/

section Pieces

/-- A piece has the texts of its words and ends with the last of them; the others end before the
longest duration is reached. -/
structure Piece (maxDuration : Rat) (group : List TranscriptWord) (p : InputSegment) : Prop where
  text : p.text = joinWith ' ' (group.map (·.text))
  proper : p.start ≤ p.end
  stop : group.getLast?.map (·.end) = some p.end
  early : ∀ w ∈ group.dropLast, w.end - p.start < maxDuration

/-- Pieces from one time to another have all the words in order, and each starts where the one
before it ends. -/
inductive Cut (maxDuration : Rat) : Rat → Rat → List TranscriptWord → List InputSegment → Prop
  | nil (a : Rat) : Cut maxDuration a a [] []
  | cons {a b : Rat} {group rest : List TranscriptWord} {p : InputSegment}
      {pieces : List InputSegment} (start : p.start = a) (piece : Piece maxDuration group p)
      (cut : Cut maxDuration p.end b rest pieces) :
      Cut maxDuration a b (group ++ rest) (p :: pieces)

variable {maxDuration a b : Rat} {words : List TranscriptWord} {pieces : List InputSegment}

theorem Piece.ne_nil {group : List TranscriptWord} {p : InputSegment}
    (h : Piece maxDuration group p) : group ≠ [] := by
  rintro rfl
  exact absurd h.stop (by simp)

theorem Cut.proper (h : Cut maxDuration a b words pieces) :
    ∀ p ∈ pieces, a ≤ p.start ∧ p.start ≤ p.end := by
  induction h with
  | nil => simp
  | cons start piece cut ih =>
      subst start
      refine List.forall_mem_cons.mpr ⟨⟨le_rfl, piece.proper⟩, fun q hq => ?_⟩
      exact ⟨piece.proper.trans (ih q hq).1, (ih q hq).2⟩

theorem Cut.ordered (h : Cut maxDuration a b words pieces) :
    pieces.Pairwise fun p q => p.end ≤ q.start := by
  induction h with
  | nil => exact List.Pairwise.nil
  | cons _ _ cut ih => exact List.Pairwise.cons (fun q hq => (cut.proper q hq).1) ih

theorem Cut.texts (h : Cut maxDuration a b words pieces) :
    joinWith ' ' (pieces.map (·.text)) = joinWith ' ' (words.map (·.text)) := by
  induction h with
  | nil => rfl
  | cons start piece cut ih =>
      have hgroup := piece.ne_nil
      rw [List.map_cons, piece.text, List.map_append]
      cases cut with
      | nil => simp
      | cons _ next _ =>
          have hnext := next.ne_nil
          rw [joinWith_append _ (by simpa using hgroup) (by simp [hnext]), ← ih, List.map_cons,
            joinWith_cons]

/-- The times at which a segment may be cut, with its start and its end: they are in order and
whole milliseconds. -/
structure Points (stop : Rat) (points : List Rat) : Prop where
  sorted : points.Pairwise (· ≤ ·)
  last : points.getLast? = some stop
  whole : ∀ x ∈ points, roundMs x = x

theorem Points.of_append {stop x : Rat} {before after : List Rat}
    (h : Points stop (before ++ x :: after)) : Points stop (x :: after) where
  sorted := (List.pairwise_append.mp h.sorted).2.1
  last := by rw [← h.last, List.getLast?_append_of_ne_nil _ (List.cons_ne_nil x after)]
  whole y hy := h.whole y (List.mem_append_right _ hy)

theorem pieceOf_eq {group : List TranscriptWord} (hne : group ≠ [])
    (htexts : ∀ w ∈ group, w.text ≠ [] ∧ Trimmed isSpace w.text) (start stop : Rat) :
    pieceOf start stop group =
      [⟨roundMs start, roundMs stop, joinWith ' ' (group.map (·.text))⟩] := by
  have hmap : ∀ t ∈ group.map (·.text), t ≠ [] ∧ Trimmed isSpace t := by
    simpa using htexts
  have htrim : strip (joinWith ' ' (group.map (·.text))) = joinWith ' ' (group.map (·.text)) :=
    trim_eq_self (trimmed_joinWith ' ' hmap)
  have hfull : joinWith ' ' (group.map (·.text)) ≠ [] :=
    joinWith_ne_nil ' ' (by simpa using hne) fun t ht => (hmap t ht).1
  rw [pieceOf, htrim, if_neg (by simpa using hfull)]

theorem piece_append {before : List TranscriptWord} {w : TranscriptWord} {start : Rat}
    (hearly : ∀ v ∈ before, v.end - start < maxDuration) (hle : start ≤ w.end) :
    Piece maxDuration (before ++ [w])
      ⟨start, w.end, joinWith ' ' ((before ++ [w]).map (·.text))⟩ where
  text := rfl
  proper := hle
  stop := by simp
  early v hv := hearly v (by simpa using hv)

/-- What is cut off behind a word, and what is left to split from its end on. -/
theorem cut_behind {stop start : Rat} {before rest : List TranscriptWord} {w : TranscriptWord}
    (hearly : ∀ v ∈ before, v.end - start < maxDuration)
    (hpoints : Points stop (start :: (before ++ w :: rest).map (·.end)))
    (htexts : ∀ v ∈ before ++ w :: rest, v.text ≠ [] ∧ Trimmed isSpace v.text)
    (hcut : Cut maxDuration w.end stop rest pieces) :
    Cut maxDuration start stop (before ++ w :: rest)
      (pieceOf start w.end (before ++ [w]) ++ pieces) := by
  have hmem : w.end ∈ (before ++ w :: rest).map (·.end) := by simp
  have hle : start ≤ w.end := (List.pairwise_cons.mp hpoints.sorted).1 _ hmem
  have hstart := hpoints.whole start List.mem_cons_self
  have hend := hpoints.whole w.end (List.mem_cons_of_mem _ hmem)
  have hgroup : ∀ v ∈ before ++ [w], v.text ≠ [] ∧ Trimmed isSpace v.text := by
    intro v hv
    refine htexts v ?_
    rw [List.append_cons]
    exact List.mem_append_left _ hv
  rw [pieceOf_eq (by simp) hgroup, hstart, hend, List.append_cons]
  exact Cut.cons rfl (piece_append hearly hle) hcut

/-- The words taken since the last cut end too early for another one. -/
theorem splitFrom_cut {stop : Rat} {taken words : List TranscriptWord} {start : Rat}
    (hearly : ∀ v ∈ taken, v.end - start < maxDuration)
    (hpoints : Points stop (start :: (taken ++ words).map (·.end)))
    (htexts : ∀ v ∈ taken ++ words, v.text ≠ [] ∧ Trimmed isSpace v.text) :
    Cut maxDuration start stop (taken ++ words)
      (splitFrom maxDuration stop taken start words) := by
  induction words generalizing taken start with
  | nil =>
      cases taken using List.reverseRecOn with
      | nil =>
          have hstop : start = stop := by simpa using hpoints.last
          rw [hstop]
          exact Cut.nil stop
      | append_singleton before w =>
          have hlast := hpoints.last
          rw [List.append_nil, List.map_append, ← List.cons_append, List.map_singleton,
            List.getLast?_concat] at hlast
          obtain rfl : w.end = stop := Option.some.inj hlast
          have hbefore : ∀ v ∈ before, v.end - start < maxDuration :=
            fun v hv => hearly v (List.mem_append_left _ hv)
          rw [List.append_assoc] at hpoints htexts ⊢
          have hcut := cut_behind hbefore hpoints htexts (Cut.nil _)
          rw [splitFrom, if_neg (by simp)]
          simpa using hcut
  | cons w rest ih =>
      rw [splitFrom]
      split_ifs with hreached
      · have hrest : Points stop (w.end :: rest.map (·.end)) := by
          rw [List.map_append, List.map_cons, ← List.cons_append] at hpoints
          exact hpoints.of_append
        have hnone : ∀ v ∈ ([] : List TranscriptWord), v.end - w.end < maxDuration := by simp
        refine cut_behind hearly hpoints htexts (ih hnone hrest fun v hv => htexts v ?_)
        exact List.mem_append_right _ (List.mem_cons_of_mem _ hv)
      · rw [List.append_cons] at hpoints htexts ⊢
        refine ih (fun v hv => ?_) hpoints htexts
        rcases List.mem_append.mp hv with hv | hv
        · exact hearly v hv
        · rw [List.mem_singleton.mp hv]
          exact not_le.mp hreached

end Pieces

/-! ## Transcripts and their pieces -/

section Transcripts

theorem sublist_wordTimes (w : TranscriptWord) (rest : List TranscriptWord) :
    List.Sublist (w.start :: (w :: rest).map (·.end)) (wordTimes (w :: rest)) := by
  have hends : ∀ words : List TranscriptWord,
      List.Sublist (words.map (·.end)) (wordTimes words) := by
    intro words
    induction words with
    | nil => exact List.Sublist.refl _
    | cons v words ih => exact (ih.cons_cons v.end).cons v.start
  exact ((hends rest).cons_cons w.end).cons_cons w.start

theorem Encloses.points {text : Text} {words : List TranscriptWord} {seg : TranscriptSegment}
    (h : Encloses text words seg) (hne : words ≠ []) (hwhole : ∀ x ∈ wordTimes words, roundMs x = x)
    (hsorted : (wordTimes words).Pairwise (· ≤ ·)) :
    Points seg.end (seg.start :: words.map (·.end)) := by
  obtain ⟨w, rest, rfl⟩ := List.exists_cons_of_ne_nil hne
  have hlast := List.getLast?_eq_some_getLast hne
  have htimes : ((w :: rest).getLast hne).end ∈ wordTimes (w :: rest) :=
    List.mem_of_getLast? (by rw [getLast?_wordTimes, hlast]; rfl)
  have hstart : seg.start = w.start := h.start.trans (hwhole w.start List.mem_cons_self)
  have hstop : seg.end = ((w :: rest).getLast hne).end := by
    rw [h.stop, getLast?_wordTimes, hlast]
    exact hwhole _ htimes
  rw [hstart, hstop]
  constructor
  · exact hsorted.sublist (sublist_wordTimes w rest)
  · rw [List.map_cons, List.getLast?_cons_cons, ← List.map_cons, List.getLast?_map, hlast]
    rfl
  · exact fun x hx => hwhole x ((sublist_wordTimes w rest).subset hx)

/-- The times that a result gives, in order. -/
def PipelineResult.given (result : PipelineResult) : List Rat :=
  ((result.chunks.getD []).flatMap Chunk.times).reduceOption

/-- A result whose given times are not negative and in order. -/
structure TimedResult extends PipelineResult where
  nonneg : ∀ x ∈ toPipelineResult.given, 0 ≤ x
  sorted : toPipelineResult.given.Pairwise (· ≤ ·)

/-- Among the chunks that are not blank, no missing time comes after one that rounds to a positive
time. -/
def PipelineResult.Fillable (result : PipelineResult) : Prop :=
  (result.spoken.flatMap Chunk.times).Pairwise fun x y => y = none → ∀ a ∈ x, roundMs a ≤ 0

/-- How a segment is split: a short one, or one without words, is kept with its own text; any
other is cut between words from its start to its end. -/
structure SplitsInto (maxDuration : Rat) (seg : TranscriptSegment) (pieces : List InputSegment) :
    Prop where
  proper : ∀ p ∈ pieces, p.start ≤ p.end
  ordered : pieces.Pairwise fun p q => p.end ≤ q.start
  kept : seg.end - seg.start ≤ maxDuration ∨ seg.words.getD [] = [] →
    pieces = [⟨seg.start, seg.end, seg.text⟩]
  cut : maxDuration < seg.end - seg.start → seg.words.getD [] ≠ [] →
    Cut maxDuration seg.start seg.end (seg.words.getD []) pieces ∧
    joinWith ' ' (pieces.map (·.text)) = joinWith ' ' ((seg.words.getD []).map (·.text))

theorem splitsInto {text : Text} {words : List TranscriptWord} {seg : TranscriptSegment}
    (h : Encloses text words seg) (hordered : Ordered seg)
    (hwhole : ∀ x ∈ wordTimes words, roundMs x = x)
    (htexts : ∀ w ∈ words, w.text ≠ [] ∧ Trimmed isSpace w.text) (maxDuration : Rat) :
    SplitsInto maxDuration seg (splitSegment maxDuration seg) := by
  rw [splitSegment, h.words]
  split_ifs with hkept
  · refine ⟨?_, List.pairwise_singleton _ _, fun _ => rfl, fun hlong hne => ?_⟩
    · simpa using hordered.proper
    · rw [h.words] at hne
      exact absurd hkept (not_or.mpr ⟨not_le.mpr hlong, by simpa using hne⟩)
  · obtain ⟨hlong, hne⟩ := not_or.mp hkept
    have hwords : words ≠ [] := by simpa using hne
    have hpoints := h.points hwords hwhole (h.ordered_iff.mp hordered)
    have hnone : ∀ v ∈ ([] : List TranscriptWord), v.end - seg.start < maxDuration := by simp
    have hcut : Cut maxDuration seg.start seg.end words
        (splitFrom maxDuration seg.end [] seg.start words) :=
      splitFrom_cut hnone hpoints htexts
    refine ⟨fun p hp => (hcut.proper p hp).2, hcut.ordered, fun hshort => ?_, fun _ _ => ?_⟩
    · rw [h.words] at hshort
      exact absurd hshort (not_or.mpr ⟨hlong, hwords⟩)
    · rw [h.words]
      exact ⟨hcut, hcut.texts⟩

variable (engineId : String) (result : PipelineResult) (language : Option String)
  (channel : Option Int)

theorem exists_normalizeOutput :
    ∃ t seg, normalizeOutput engineId result language channel = .ok t ∧
      t.text = strip (result.text.getD []) ∧ t.segments = [seg] ∧
      Encloses (strip (result.text.getD [])) (result.spoken.map Chunk.word) seg := by
  obtain ⟨seg, hseg, hencloses⟩ := exists_segmentOf (strip (result.text.getD []))
    (result.spoken.map Chunk.word)
  have hnormal : normalizeOutput engineId result language channel =
      .ok (buildTranscript (strip (result.text.getD [])) [seg] (languageOrAuto language) engineId
        none (if (result.spoken.map Chunk.word).isEmpty then .unknown else .attention) channel
        []) := by
    rw [normalizeOutput, wordsOf_eq]
    dsimp only [bind, Except.bind]
    rw [← PipelineResult.spoken, hseg]
    rfl
  exact ⟨_, seg, hnormal, rfl, rfl, hencloses⟩

theorem words_clean : ∀ w ∈ result.spoken.map Chunk.word,
    w.text ≠ [] ∧ Trimmed isSpace w.text := by
  intro w hw
  obtain ⟨c, hc, rfl⟩ := List.mem_map.mp hw
  have hspoken := (List.mem_filter.mp hc).2
  exact ⟨by simpa [Chunk.spoken, Chunk.word] using hspoken, trimmed_trim _⟩

theorem words_whole : ∀ x ∈ wordTimes (result.spoken.map Chunk.word), roundMs x = x := by
  intro x hx
  rw [wordTimes_words] at hx
  obtain ⟨y, -, rfl⟩ := List.mem_map.mp hx
  exact roundMs_roundMs _

/-- The times of the words are in order exactly if no missing time is to be filled in after a
positive one. -/
theorem times_sorted_iff (result : TimedResult) :
    (wordTimes (result.spoken.map Chunk.word)).Pairwise (· ≤ ·) ↔ result.Fillable := by
  have hgiven : (result.spoken.flatMap Chunk.times).reduceOption.Sublist result.given :=
    ((List.filter_sublist).flatMap Chunk.times).filterMap id
  have hzero : roundMs 0 = 0 := by norm_num [roundMs, roundHalfEven]
  rw [wordTimes_words, pairwise_filled_iff (fun _ _ h => roundMs_mono h)
    (fun a ha => result.nonneg a (hgiven.subset ha)) (result.sorted.sublist hgiven), hzero]
  rfl

/-- Two words with a long silence between them. -/
def silentResult : TimedResult where
  text := some "a b".toList
  chunks := some [⟨some "a".toList, some (some 0, some 1)⟩,
    ⟨some "b".toList, some (some 100, some 101)⟩]
  nonneg := by decide +kernel
  sorted := by decide +kernel

/-- A minute of speech whose last word has no end. -/
def endlessResult : TimedResult where
  text := some "Hello world".toList
  chunks := some [⟨some "Hello".toList, some (some 0, some 40)⟩,
    ⟨some "world".toList, some (some (119 / 2), none)⟩]
  nonneg := by decide +kernel
  sorted := by decide +kernel

end Transcripts

end Dalston.Engines.HfAsr
