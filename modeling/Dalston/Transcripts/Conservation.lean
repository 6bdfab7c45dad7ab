import Dalston.Transcripts.SegmentSplits

/-!
# What a split keeps

A split deals the words of a segment, or the tokens of its text, out to its parts. The
parts of the words keep every word in its place, whatever the speakers are and however
often short parts are joined, and the parts of the text keep every token.
-/

namespace Dalston.Transcripts

open Foundation Model.TextWrap

section Texts

variable {segText : Text} {segStart segEnd : Rat} {windows : List Window}

theorem fillBuckets_length (windows : List Window) (placed : List (Rat × Text)) :
    (fillBuckets windows placed).length = windows.length := by
  induction windows, placed using fillBuckets.induct with
  | case1 => rfl
  | case2 => rfl
  | case3 window w rest placed ih => simp [fillBuckets, ih]

/-- The buckets hold the tokens in their order. -/
theorem fillBuckets_flatten (h : windows ≠ []) (placed : List (Rat × Text)) :
    (fillBuckets windows placed).flatten = placed.map (·.2) := by
  induction windows, placed using fillBuckets.induct with
  | case1 => exact absurd rfl h
  | case2 => simp [fillBuckets]
  | case3 window w rest placed ih =>
      rw [fillBuckets, List.flatten_cons, ih (by simp), ← List.map_append,
        List.takeWhile_append_dropWhile]

theorem placedTokens_map_snd (start duration : Rat) (words : List Text) :
    (placedTokens start duration words).map (·.2) = words := by
  rw [placedTokens, List.map_map]
  exact List.zipIdx_map_fst 0 words

/-- Joining tokens and taking the tokens again changes nothing. -/
theorem tokens_joined {words : List Text} (h : ∀ w ∈ words, IsToken isSpace w) :
    tokens isSpace (joinWith ' ' words) = words :=
  tokens_joinWith (by decide) h

theorem splitTextAcrossWindows_length (segText : Text) (segStart segEnd : Rat)
    (windows : List Window) :
    (splitTextAcrossWindows segText segStart segEnd windows).length = windows.length := by
  unfold splitTextAcrossWindows
  split
  · rfl
  · simp
  · rfl
  · split
    · simp
    · simp [fillBuckets_length]

/-- The joined buckets have the tokens that were dealt out. -/
theorem tokens_fillBuckets (h : windows ≠ []) {start duration : Rat} {words : List Text}
    (hwords : ∀ w ∈ words, IsToken isSpace w) :
    (fillBuckets windows (placedTokens start duration words)).flatMap
      (fun bucket => tokens isSpace (joinWith ' ' bucket)) = words := by
  have hfill := fillBuckets_flatten h (placedTokens start duration words)
  rw [placedTokens_map_snd] at hfill
  calc
    _ = (fillBuckets windows (placedTokens start duration words)).flatMap id := by
      refine List.flatMap_congr fun bucket hbucket => tokens_joined fun w hw => hwords w ?_
      rw [← hfill]
      exact List.mem_flatten_of_mem hbucket hw
    _ = words := by rw [List.flatMap_id, hfill]

/-- The texts of the windows have the tokens of the segment's text, in order. -/
theorem tokens_splitTextAcrossWindows (h : windows ≠ []) :
    (splitTextAcrossWindows segText segStart segEnd windows).flatMap (tokens isSpace) =
      tokens isSpace segText := by
  have htokens : ∀ w ∈ tokens isSpace segText, IsToken isSpace w := fun w hw => mem_tokens hw
  have hblank : ∀ others : List Window,
      (others.map fun _ => ([] : Text)).flatMap (tokens isSpace) = [] := by
    intro others
    simp
  unfold splitTextAcrossWindows
  cases hwords : tokens isSpace segText with
  | nil =>
      cases windows with
      | nil => exact absurd rfl h
      | cons w rest => exact hblank (w :: rest)
  | cons t words =>
      rw [hwords] at htokens
      rcases windows with _ | ⟨v, _ | ⟨w, rest⟩⟩
      · exact absurd rfl h
      · simp only [List.flatMap_singleton, tokens_joined htokens]
      · simp only
        split
        · rw [List.flatMap_cons, tokens_joined htokens, hblank, List.append_nil]
        · rw [List.flatMap_map]
          exact tokens_fillBuckets h htokens

/-- The windows with their speakers resolved follow each other as before. -/
theorem tiles_resolveWindows (turns : List SpeakerTurn)
    (h : Tiles Window.start Window.end segStart segEnd windows) :
    Tiles Window.start Window.end segStart segEnd (resolveWindows turns windows) := by
  have hmapped : Tiles Window.start Window.end segStart segEnd
      (windows.map (resolveWindow turns)) := tiles_map.mpr h
  exact hmapped.coalesce extendWindow_start extendWindow_end

/-- The parts of a text that is split without words. -/
structure TextSplit (segText : Text) (segStart segEnd : Rat) (parts : List Part) : Prop where
  tokens : parts.flatMap (fun part => tokens isSpace part.text) = tokens isSpace segText
  ordered : parts.Pairwise fun p q => p.end ≤ q.start
  within : ∀ part ∈ parts, segStart ≤ part.start ∧ part.end ≤ segEnd
  forward : segStart < segEnd → ∀ part ∈ parts, part.start < part.end

theorem textSplit_wholePart (words : Option (List Word)) (speaker : Option String) :
    TextSplit segText segStart segEnd [wholePart segStart segEnd segText words speaker] where
  tokens := by simp [wholePart]
  ordered := List.pairwise_singleton _ _
  within part hpart := by
    rw [List.mem_singleton.mp hpart]
    exact ⟨le_rfl, le_rfl⟩
  forward h part hpart := by
    rw [List.mem_singleton.mp hpart]
    exact h

theorem textSplit_splitByWindows {turns : List SpeakerTurn} (hlt : segStart < segEnd)
    (h : Tiles Window.start Window.end segStart segEnd windows) :
    TextSplit segText segStart segEnd
      (splitByWindows segStart segEnd segText turns windows) := by
  have hresolved := tiles_resolveWindows turns h
  set resolved := resolveWindows turns windows
  have hlength := splitTextAcrossWindows_length segText segStart segEnd resolved
  set texts := splitTextAcrossWindows segText segStart segEnd resolved with htexts
  have htiles : Tiles Part.start Part.end segStart segEnd
      ((resolved.zip texts).map windowPart) := by
    rw [← List.map_fst_zip hlength.ge] at hresolved
    have hpairs : Tiles (fun p : Window × Text => p.1.start) (fun p => p.1.end) segStart segEnd
        (resolved.zip texts) := tiles_map.mp hresolved
    exact tiles_map.mpr hpairs
  refine ⟨?_, htiles.ordered, fun part hpart => ?_, fun _ part hpart => (htiles.within hpart).2.1⟩
  · rw [splitByWindows, List.flatMap_map]
    calc
      _ = ((resolved.zip texts).map (·.2)).flatMap (Foundation.tokens isSpace) := by
        rw [List.flatMap_map]
        rfl
      _ = Foundation.tokens isSpace segText := by
        rw [List.map_snd_zip hlength.le]
        exact tokens_splitTextAcrossWindows (hresolved.ne_nil hlt)
  · exact ⟨(htiles.within hpart).1, (htiles.within hpart).2.2⟩

/-- The text of a segment without words is split among its parts, whatever the windows are:
the tokens of the parts are those of the text, and the parts lie in order in the segment. -/
theorem splitSegment_without_words :
    (∀ (segText : Text) (segStart segEnd : Rat) (windows : List Window), windows ≠ [] →
      (splitTextAcrossWindows segText segStart segEnd windows).flatMap (Foundation.tokens isSpace) =
        Foundation.tokens isSpace segText) ∧
    ∀ (rounds : Nat) (segText : Text) (segStart segEnd : Rat) (words : Option (List Word))
      (turns : List SpeakerTurn), words.getD [] = [] →
        ∃ parts, splitSegmentByDiarization rounds segStart segEnd segText words turns = some parts ∧
          TextSplit segText segStart segEnd parts := by
  refine ⟨fun _ _ _ _ h => tokens_splitTextAcrossWindows h, ?_⟩
  intro rounds segText segStart segEnd words turns hwords
  unfold splitSegmentByDiarization
  split
  · exact ⟨_, rfl, textSplit_wholePart words none⟩
  · split
    · exact ⟨_, rfl, textSplit_wholePart words _⟩
    · exact ⟨_, rfl, textSplit_wholePart words _⟩
    · rename_i v w rest hwindows
      have hlt : segStart < segEnd := by
        by_contra hle
        rw [buildSpeakerWindows, if_pos (not_lt.mp hle)] at hwindows
        cases hwindows
      have htiles : Tiles Window.start Window.end segStart segEnd (v :: w :: rest) :=
        hwindows ▸ tiles_buildSpeakerWindows hlt
      have hnone : splitWordsBySpeaker (words.getD []) turns = [] := by
        rw [hwords]
        rfl
      rw [hnone]
      exact ⟨_, rfl, textSplit_splitByWindows hlt htiles⟩

/-- A question and its answer in one segment. -/
def questionTurns : List SpeakerTurn :=
  [⟨"SPEAKER_00", 0, 2, none, none⟩, ⟨"SPEAKER_01", 3, 4, none, none⟩]

theorem question_split :
    ((splitTextAcrossWindows "who is it me".toList 0 4 [⟨0, 3, some "SPEAKER_00"⟩]).flatMap
        (Foundation.tokens isSpace) = Foundation.tokens isSpace "who is it me".toList) ∧
      ∃ parts, splitSegmentByDiarization 0 0 4 "who is it me".toList none questionTurns =
          some parts ∧ TextSplit "who is it me".toList 0 4 parts :=
  ⟨splitSegment_without_words.1 _ 0 4 _ (by simp),
    splitSegment_without_words.2 0 _ 0 4 none questionTurns rfl⟩

end Texts

section Words

/-- The word has a text. -/
def Word.Spoken (w : Word) : Prop := trim isSpace w.text ≠ []

def partWords (part : Part) : List Word := part.words.getD []

theorem joinWords_of_spoken {words : List Word} (h : ∀ w ∈ words, w.Spoken) :
    joinWords words = joinWith ' ' (words.map fun w => trim isSpace w.text) := by
  rw [joinWords, List.filter_eq_self.mpr]
  intro t ht
  obtain ⟨w, hw, rfl⟩ := List.mem_map.mp ht
  simpa [Word.Spoken] using h w hw

theorem joinWords_ne_nil {words : List Word} (h : ∀ w ∈ words, w.Spoken) (hne : words ≠ []) :
    joinWords words ≠ [] := by
  rw [joinWords_of_spoken h]
  refine joinWith_ne_nil ' ' (by simpa using hne) fun t ht => ?_
  obtain ⟨w, hw, rfl⟩ := List.mem_map.mp ht
  exact h w hw

/-- The texts of two runs joined by a space are the text of the runs together. -/
theorem joinWords_append {first second : List Word} (hfirst : ∀ w ∈ first, w.Spoken)
    (hsecond : ∀ w ∈ second, w.Spoken) (hne : first ≠ []) (hne' : second ≠ []) :
    trim isSpace (joinWords first ++ ' ' :: joinWords second) = joinWords (first ++ second) := by
  have hboth : ∀ w ∈ first ++ second, w.Spoken := by
    intro w hw
    rcases List.mem_append.mp hw with hw | hw
    · exact hfirst w hw
    · exact hsecond w hw
  have hjoined : joinWords first ++ ' ' :: joinWords second = joinWords (first ++ second) := by
    rw [joinWords_of_spoken hfirst, joinWords_of_spoken hsecond, joinWords_of_spoken hboth,
      List.map_append, joinWith_append ' ' (by simpa using hne) (by simpa using hne')]
  rw [hjoined]
  refine trim_eq_self ?_
  rw [joinWords_of_spoken hboth]
  refine trimmed_joinWith ' ' fun t ht => ?_
  obtain ⟨w, hw, rfl⟩ := List.mem_map.mp ht
  exact ⟨hboth w hw, trimmed_trim _⟩

/-- A part whose text is that of its words. -/
structure Part.Worded (part : Part) : Prop where
  nonempty : partWords part ≠ []
  spoken : ∀ w ∈ partWords part, w.Spoken
  text : part.text = joinWords (partWords part)

theorem closeRun_worded (speaker : Option String) {words : List Word}
    (h : ∀ w ∈ words, w.Spoken) :
    (closeRun speaker words).flatMap partWords = words ∧
      ∀ part ∈ closeRun speaker words, part.Worded := by
  cases words with
  | nil => simp [closeRun]
  | cons first rest =>
      rw [closeRun, if_neg (joinWords_ne_nil h (by simp))]
      refine ⟨by simp [partWords], fun part hpart => ?_⟩
      rw [List.mem_singleton.mp hpart]
      exact ⟨by simp [partWords], h, rfl⟩

/-- The runs hold the words at hand and the words that come, in order. -/
theorem splitRuns_worded (turns : List SpeakerTurn) {words : List Word}
    (hwords : ∀ w ∈ words, w.start ≤ w.end ∧ w.Spoken) (speaker : Option String)
    (current : List Word) (hcurrent : ∀ w ∈ current, w.Spoken) :
    (splitRuns turns speaker current words).flatMap partWords = current ++ words ∧
      ∀ part ∈ splitRuns turns speaker current words, part.Worded := by
  induction words generalizing speaker current with
  | nil =>
      rw [splitRuns, List.append_nil]
      exact closeRun_worded speaker hcurrent
  | cons word rest ih =>
      obtain ⟨hforward, hspoken⟩ := hwords word List.mem_cons_self
      have hrest : ∀ w ∈ rest, w.start ≤ w.end ∧ w.Spoken :=
        fun w hw => hwords w (List.mem_cons_of_mem _ hw)
      rw [splitRuns, if_neg (not_lt.mpr hforward)]
      dsimp only
      split
      · obtain ⟨hrun, hrunParts⟩ := closeRun_worded speaker hcurrent
        obtain ⟨htail, htailParts⟩ := ih hrest (assignSpeakerToWord word turns) [word]
          (by simpa using hspoken)
        rw [List.flatMap_append, hrun, htail]
        refine ⟨rfl, fun part hpart => ?_⟩
        rcases List.mem_append.mp hpart with hpart | hpart
        · exact hrunParts part hpart
        · exact htailParts part hpart
      · obtain ⟨htail, htailParts⟩ := ih hrest (assignSpeakerToWord word turns)
          (current ++ [word]) (by simpa [or_imp, forall_and] using ⟨hcurrent, hspoken⟩)
        rw [htail, List.append_assoc]
        exact ⟨rfl, htailParts⟩

/-- The words of a part and its text are those of two parts in a row. -/
structure Combines (first second combined : Part) : Prop where
  text : combined.text = trim isSpace (first.text ++ ' ' :: second.text)
  words : combined.words = combinedWords first second

theorem Combines.partWords_eq {first second combined : Part} (h : Combines first second combined) :
    partWords combined = partWords first ++ partWords second := by
  rw [partWords, h.words, combinedWords]
  unfold partWords
  split
  · rename_i hnil
    rw [hnil]
    rfl
  · rename_i hcons
    rw [hcons]
    rfl

theorem Combines.worded {first second combined : Part} (h : Combines first second combined)
    (hfirst : first.Worded) (hsecond : second.Worded) : combined.Worded := by
  refine ⟨?_, ?_, ?_⟩
  · rw [h.partWords_eq]
    exact List.append_ne_nil_of_left_ne_nil hfirst.nonempty _
  · intro w hw
    rw [h.partWords_eq] at hw
    rcases List.mem_append.mp hw with hw | hw
    · exact hfirst.spoken w hw
    · exact hsecond.spoken w hw
  · rw [h.text, h.partWords_eq, hfirst.text, hsecond.text]
    exact joinWords_append hfirst.spoken hsecond.spoken hfirst.nonempty hsecond.nonempty

/-- A merge target is the part before or the part after. -/
theorem mergeTarget_eq_some {merged : List Part} {i target : Nat}
    (h : mergeTarget merged i = some target) :
    target + 1 = i ∨ target = i + 1 ∧ i + 1 < merged.length := by
  have hprev : ∀ p, (if 0 < i then merged[i - 1]? else none) = some p → 0 < i := by
    intro p hp
    by_contra hzero
    rw [if_neg hzero] at hp
    cases hp
  have hnext : ∀ p, merged[i + 1]? = some p → i + 1 < merged.length :=
    fun p hp => (List.getElem?_eq_some_iff.mp hp).1
  unfold mergeTarget at h
  split at h
  · rename_i p n hp hn
    have hpos := hprev p hp
    have hlt := hnext n hn
    split at h
    · cases h
      omega
    · cases h
      omega
  · rename_i p hp _
    have hpos := hprev p hp
    cases h
    omega
  · rename_i n _ hn
    have hlt := hnext n hn
    cases h
    omega
  · cases h

/-- The part found short has a neighbour to be joined to. -/
theorem firstShort_eq_some {minWords : Nat} {merged : List Part} {i target : Nat}
    (h : firstShort minWords merged = some (i, target)) :
    i < merged.length ∧ (target + 1 = i ∨ target = i + 1 ∧ i + 1 < merged.length) := by
  obtain ⟨j, hj, hfound⟩ := List.exists_of_findSome?_eq_some h
  rw [List.mem_range] at hj
  split at hfound
  · cases hfound
  · obtain ⟨t, ht, hpair⟩ := Option.map_eq_some_iff.mp hfound
    obtain ⟨rfl, rfl⟩ := Prod.mk.inj hpair
    exact ⟨hj, mergeTarget_eq_some ht⟩

/-- Two parts in a row with what comes before and after them. -/
theorem exists_pair {merged : List Part} {k : Nat} (h : k + 1 < merged.length) :
    ∃ before x y rest, merged = before ++ x :: y :: rest ∧ before.length = k := by
  refine ⟨merged.take k, merged[k], merged[k + 1], merged.drop (k + 2), ?_, ?_⟩
  · rw [List.getElem_cons_drop, List.getElem_cons_drop, List.take_append_drop]
  · simp
    omega

/-- A step of the loop puts one part in the place of two in a row. -/
theorem mergeAt_eq {minWords : Nat} {merged : List Part} {i target : Nat}
    (h : firstShort minWords merged = some (i, target)) :
    ∃ before x y rest combined, merged = before ++ x :: y :: rest ∧ Combines x y combined ∧
      mergeAt merged i target = before ++ combined :: rest := by
  obtain ⟨hi, hback | ⟨rfl, hahead⟩⟩ := firstShort_eq_some h
  · obtain ⟨before, x, y, rest, rfl, hlen⟩ := exists_pair (show target + 1 < merged.length from hback ▸ hi)
    refine ⟨before, x, y, rest, mergeBack x y, rfl, ⟨rfl, rfl⟩, ?_⟩
    subst hback hlen
    simp [mergeAt, List.eraseIdx_append_of_length_le]
  · obtain ⟨before, x, y, rest, rfl, hlen⟩ := exists_pair hahead
    refine ⟨before, x, y, rest, mergeAhead x y, rfl, ⟨rfl, rfl⟩, ?_⟩
    subst hlen
    simp [mergeAt, List.eraseIdx_append_of_length_le]

/-- The parts hold the words in order, and each has the text of its words. -/
structure Conserved (words : List Word) (parts : List Part) : Prop where
  words : parts.flatMap partWords = words
  texts : ∀ part ∈ parts, part.Worded

/-- One merge keeps the words and leaves a part less. -/
theorem Conserved.mergeAt {words : List Word} {merged : List Part} (h : Conserved words merged)
    {minWords i target : Nat} (hshort : firstShort minWords merged = some (i, target)) :
    Conserved words (mergeAt merged i target) ∧
      (Transcripts.mergeAt merged i target).length + 1 = merged.length := by
  obtain ⟨before, x, y, rest, combined, rfl, hcombines, heq⟩ := mergeAt_eq hshort
  have hwords := h.words
  have hx := h.texts x (by simp)
  have hy := h.texts y (by simp)
  rw [heq]
  have hlength : (before ++ combined :: rest).length + 1 = (before ++ x :: y :: rest).length := by
    simp only [List.length_append, List.length_cons]
    omega
  refine ⟨⟨?_, fun part hpart => ?_⟩, hlength⟩
  · simp only [List.flatMap_append, List.flatMap_cons] at hwords ⊢
    rw [hcombines.partWords_eq, List.append_assoc]
    exact hwords
  · rcases List.mem_append.mp hpart with hpart | hpart
    · exact h.texts part (by simp [hpart])
    · rcases List.mem_cons.mp hpart with rfl | hpart
      · exact hcombines.worded hx hy
      · exact h.texts part (by simp [hpart])

/-- The loop ends after less rounds than there are parts, and no word is lost on the way. -/
theorem Conserved.mergeLoop {words : List Word} {minWords rounds : Nat} {merged : List Part}
    (h : Conserved words merged) (hrounds : merged.length < rounds) :
    ∃ parts, mergeLoop minWords rounds merged = some parts ∧ Conserved words parts := by
  induction rounds generalizing merged with
  | zero => exact absurd hrounds (Nat.not_lt_zero _)
  | succ rounds ih =>
      rw [Transcripts.mergeLoop]
      cases hshort : firstShort minWords merged with
      | none => exact ⟨merged, rfl, h⟩
      | some found =>
          obtain ⟨i, target⟩ := found
          obtain ⟨hkeep, hlength⟩ := h.mergeAt hshort
          exact ih hkeep (by omega)

theorem Conserved.mergeShortSplits {words : List Word} {rounds : Nat} {parts : List Part}
    (h : Conserved words parts) (minWords : Nat) (hrounds : parts.length < rounds) :
    ∃ merged, mergeShortSplits minWords rounds parts = some merged ∧ Conserved words merged := by
  unfold Transcripts.mergeShortSplits
  split
  · exact ⟨parts, rfl, h⟩
  · exact h.mergeLoop hrounds

/-- Every part has a word. -/
theorem Conserved.length_le {words : List Word} {parts : List Part} (h : Conserved words parts) :
    parts.length ≤ words.length := by
  obtain ⟨hwords, htexts⟩ := h
  subst hwords
  induction parts with
  | nil => simp
  | cons part rest ih =>
      have hpos := List.length_pos_of_ne_nil (htexts part List.mem_cons_self).nonempty
      have hrest := ih fun p hp => htexts p (List.mem_cons_of_mem _ hp)
      simp only [List.flatMap_cons, List.length_append, List.length_cons]
      omega

theorem conserved_splitWordsBySpeaker {words : List Word} (turns : List SpeakerTurn)
    (hwords : ∀ w ∈ words, w.start ≤ w.end ∧ w.Spoken) :
    Conserved (sortWords words) (splitWordsBySpeaker words turns) := by
  have hsorted : ∀ w ∈ sortWords words, w.start ≤ w.end ∧ w.Spoken :=
    fun w hw => hwords w ((List.mem_insertionSort _).mp hw)
  obtain ⟨hall, hparts⟩ := splitRuns_worded turns hsorted none [] (by simp)
  exact ⟨hall, hparts⟩

/-- The parts hold the given words, in the order of their times. -/
def InOrder (words : List Word) (parts : List Part) : Prop :=
  ∃ sorted, sorted.Perm words ∧ sorted.Pairwise wordBefore ∧ Conserved sorted parts

theorem inOrder_of_conserved {words : List Word} {parts : List Part}
    (h : Conserved (sortWords words) parts) : InOrder words parts :=
  ⟨sortWords words, List.perm_insertionSort _ _,
    List.pairwise_insertionSort (tupleLe Word.start Word.end) words, h⟩

/-- What the parts of a segment with words are: the segment itself, or parts that conserve its
words when the segment is split. -/
def Splits (turns : List SpeakerTurn) (seg : SourceSegment) (parts : List Part) : Prop :=
  (2 ≤ (buildSpeakerWindows seg.start seg.end turns).length →
    InOrder (seg.words.getD []) parts) ∧
  ((buildSpeakerWindows seg.start seg.end turns).length < 2 →
    ∃ speaker, parts = [wholePart seg.start seg.end seg.text seg.words speaker])

/-- Without turns there are not two windows. -/
theorem windows_of_no_turns (segStart segEnd : Rat) :
    (buildSpeakerWindows segStart segEnd []).length < 2 := by
  have hchanges := changes_buildSpeakerWindows segStart segEnd []
  rcases hwindows : buildSpeakerWindows segStart segEnd [] with _ | ⟨v, _ | ⟨w, rest⟩⟩
  · simp
  · simp
  · have hnobody : ∀ u ∈ buildSpeakerWindows segStart segEnd [], u.speaker = none :=
      fun u hu => (spoken_buildSpeakerWindows hu).silent.mpr (by simp)
    rw [hwindows] at hchanges hnobody
    rw [List.isChain_cons_cons] at hchanges
    exact absurd ((hnobody v (by simp)).trans (hnobody w (by simp)).symm) hchanges.1

theorem splitSegment_splits {turns : List SpeakerTurn} {seg : SourceSegment} {rounds : Nat}
    (hne : seg.words.getD [] ≠ [])
    (hwords : ∀ w ∈ seg.words.getD [], w.start ≤ w.end ∧ w.Spoken)
    (hrounds : (seg.words.getD []).length < rounds) :
    ∃ parts, splitSegmentByDiarization rounds seg.start seg.end seg.text seg.words turns =
      some parts ∧ Splits turns seg parts := by
  have hsplit := conserved_splitWordsBySpeaker turns hwords
  unfold splitSegmentByDiarization Splits
  split
  · rename_i hturns
    rw [hturns]
    have hlt := windows_of_no_turns seg.start seg.end
    exact ⟨_, rfl, fun h => absurd h (by omega), fun _ => ⟨none, rfl⟩⟩
  · split
    · rename_i hwindows
      exact ⟨_, rfl, by simp [hwindows], fun _ => ⟨_, rfl⟩⟩
    · rename_i w hwindows
      exact ⟨_, rfl, by simp [hwindows], fun _ => ⟨_, rfl⟩⟩
    · rename_i v w rest hwindows
      cases hparts : splitWordsBySpeaker (seg.words.getD []) turns with
      | nil =>
          have hnone := hsplit.words
          rw [hparts, List.flatMap_nil] at hnone
          have hperm := List.perm_insertionSort wordBefore (seg.words.getD [])
          rw [show (seg.words.getD []).insertionSort wordBefore = [] from hnone.symm] at hperm
          exact absurd hperm.nil_eq.symm hne
      | cons part parts =>
          rw [hparts] at hsplit
          have hlength : (part :: parts).length < rounds := by
            have hle := hsplit.length_le
            rw [sortWords, List.length_insertionSort] at hle
            omega
          obtain ⟨merged, hmerged, hconserved⟩ := hsplit.mergeShortSplits MIN_SEGMENT_WORDS hlength
          refine ⟨merged, hmerged, fun _ => inOrder_of_conserved hconserved,
            fun hlt => absurd hlt ?_⟩
          simp [hwindows]

theorem mapM_eq_some_of_forall₂ {A B : Type} {f : A → Option B} {as : List A} {bs : List B}
    (h : List.Forall₂ (fun a b => f a = some b) as bs) : as.mapM f = some bs := by
  induction h with
  | nil => rfl
  | cons hfirst _ ih => simp [List.mapM_cons, hfirst, ih]

/-- Every segment with words is split into parts that conserve its words. The parts are found
after a bounded number of rounds, and their segments follow each other in the result. -/
theorem buildMergedSegments_conserves (segments : List SourceSegment) (turns : List SpeakerTurn)
    (wordTimestampsAvailable : Bool)
    (hwords : ∀ seg ∈ segments, seg.words.getD [] ≠ [] ∧
      ∀ w ∈ seg.words.getD [], w.start ≤ w.end ∧ w.Spoken) :
    ∃ bound, ∀ rounds, bound ≤ rounds → ∃ parts, List.Forall₂ (Splits turns) segments parts ∧
      buildMergedSegments rounds turns wordTimestampsAvailable segments =
        some (mergeParts wordTimestampsAvailable (segments.zip parts)) := by
  refine ⟨(segments.map fun seg => (seg.words.getD []).length + 1).sum, fun rounds hrounds => ?_⟩
  have hbound : ∀ seg ∈ segments, (seg.words.getD []).length < rounds := by
    intro seg hseg
    have hle := List.single_le_sum (fun _ _ => Nat.zero_le _) _
      (List.mem_map_of_mem (f := fun seg : SourceSegment => (seg.words.getD []).length + 1) hseg)
    omega
  have hfound : ∃ parts, List.Forall₂ (fun seg parts => splitSegmentByDiarization rounds seg.start
      seg.end seg.text seg.words turns = some parts ∧ Splits turns seg parts) segments parts := by
    clear hrounds
    induction segments with
    | nil => exact ⟨[], List.Forall₂.nil⟩
    | cons seg rest ih =>
        obtain ⟨hne, hspoken⟩ := hwords seg List.mem_cons_self
        obtain ⟨first, hfirst⟩ := splitSegment_splits hne hspoken (hbound seg List.mem_cons_self)
        obtain ⟨others, hothers⟩ := ih (fun s hs => hwords s (List.mem_cons_of_mem _ hs))
          fun s hs => hbound s (List.mem_cons_of_mem _ hs)
        exact ⟨first :: others, List.Forall₂.cons hfirst hothers⟩
  obtain ⟨parts, hparts⟩ := hfound
  refine ⟨parts, hparts.imp fun _ _ h => h.2, ?_⟩
  have hmap := mapM_eq_some_of_forall₂ (hparts.imp fun _ _ h => h.1)
  rw [buildMergedSegments, hmap]
  rfl

/-- Two words of one speaker in a row, and one of another. -/
def questionSegment : SourceSegment where
  start := 0
  «end» := 4
  text := "who is it me".toList
  words := some [⟨" who".toList, 0, 1⟩, ⟨" is it".toList, 1, 2⟩, ⟨" me".toList, 3, 4⟩]
  detail := ⟨some "en", none, none, none, none, none, none⟩

theorem questionSegment_conserved :
    ∃ bound, ∀ rounds, bound ≤ rounds → ∃ parts,
      List.Forall₂ (Splits questionTurns) [questionSegment] parts ∧
        buildMergedSegments rounds questionTurns true [questionSegment] =
          some (mergeParts true ([questionSegment].zip parts)) := by
  refine buildMergedSegments_conserves [questionSegment] questionTurns true ?_
  unfold Word.Spoken
  decide +kernel

end Words

end Dalston.Transcripts
