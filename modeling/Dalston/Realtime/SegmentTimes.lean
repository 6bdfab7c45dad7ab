import Dalston.Realtime.Timeline

/-!
# The times of segments and words

The assembler puts a transcript where the last one ended, whatever audio lies
between the two. Its times are those of the received audio exactly when there is
nothing between them: each piece begins where the last entry of the transcript
ended, and the words of a streaming decoder begin at 0 and come after no entry of
positive length.
-/

namespace Dalston.Realtime

def firstStart (words : List Word) : Rat := (words.head?.map (·.start)).getD 0

/-- The segment of an entry has the times of the audio, or of the decoder's words. -/
def Entry.TimedBy (segment : Segment) : Entry → Prop
  | piece audio transcript =>
      segment.start = audioStart audio ∧ segment.end = audioStop audio ∧
        segment.words = (extractWords transcript).map (Word.shift (audioStart audio))
  | streamed words =>
      segment.start = firstStart words ∧ segment.end = lastEnd words ∧ segment.words = words

/-- Nothing lies between the entries from this position on. -/
def Gapless : Rat → List Entry → Prop
  | _, [] => True
  | position, .piece audio _ :: rest =>
      audioStart audio = position ∧ audioStart audio + audioDuration audio = audioStop audio ∧
        Gapless (audioStop audio) rest
  | position, .streamed words :: rest =>
      position = 0 ∧ firstStart words = 0 ∧ Gapless (lastEnd words) rest

def Word.Before (a b : Word) : Prop := a.start ≤ b.start ∧ a.end ≤ b.end

/-- Words in the order of time, from one position to another. -/
structure WordsInOrder (first last : Rat) (words : List Word) : Prop where
  ordered : words.Pairwise Word.Before
  forward : ∀ w ∈ words, w.start ≤ w.end
  within : ∀ w ∈ words, first ≤ w.start ∧ w.end ≤ last

/-- The engine gives words in the order of time and within the audio they are decoded from. -/
def Entry.WellTimed (received : Rat) : Entry → Prop
  | piece audio transcript => WordsInOrder 0 (audioDuration audio) (extractWords transcript)
  | streamed words => WordsInOrder 0 received words

/-- Segments and words are in the order of time and within the received audio. -/
structure SegmentsInOrder (received : Rat) (segments : List Segment) : Prop where
  ordered : segments.Pairwise fun s t => s.end ≤ t.start
  within : ∀ s ∈ segments, 0 ≤ s.start ∧ s.start ≤ s.end ∧ s.end ≤ received
  words : ∀ s ∈ segments, WordsInOrder s.start s.end s.words

/-- The timeline of a session is that of its received audio. -/
structure TrueTimeline (s : TimelineSession) : Prop where
  times : List.Forall₂ (fun entry segment => entry.TimedBy segment) s.entries s.assembler.segments
  order : (∀ entry ∈ s.entries, entry.WellTimed s.position) →
    SegmentsInOrder s.position s.assembler.segments

namespace Entry

/-- What the assembler adds to its position. -/
def length : Entry → Rat
  | piece audio _ => audioDuration audio
  | streamed words => lastEnd words

/-- The transcript of an entry, for some texts of a streaming decoder. -/
def HasTranscript (transcript : Transcript) : Entry → Prop
  | piece _ t => transcript = t
  | streamed words => extractWords transcript = words

end Entry

/-- The segments are those of the entries, one after the other. -/
inductive Assembled : List Entry → TranscriptAssembler → Prop
  | empty : Assembled [] .empty
  | add {entries : List Entry} {assembler : TranscriptAssembler} {entry : Entry}
      {transcript : Transcript} :
      Assembled entries assembler → entry.HasTranscript transcript →
      Assembled (entries ++ [entry]) (assembler.addTranscript transcript entry.length)

/-- A chunk of the audio received so far. -/
structure Chunk.Within (received : Rat) (chunk : Chunk) : Prop where
  start : 0 ≤ chunk.start
  duration : 0 ≤ chunk.duration
  stop : chunk.stop ≤ received

/-- What the entries of a session are made of. -/
def Entry.Sound (received : Rat) : Entry → Prop
  | piece audio _ => audio ≠ [] ∧ ∀ chunk ∈ audio, chunk.Within received
  | streamed words => words ≠ []

theorem Chunk.Within.mono {received later : Rat} {chunk : Chunk} (h : chunk.Within received)
    (hle : received ≤ later) : chunk.Within later :=
  ⟨h.start, h.duration, h.stop.trans hle⟩

theorem Entry.Sound.mono {received later : Rat} {entry : Entry} (h : entry.Sound received)
    (hle : received ≤ later) : entry.Sound later := by
  cases entry with
  | piece audio transcript =>
      exact ⟨h.1, fun chunk hchunk => (h.2 chunk hchunk).mono hle⟩
  | streamed words => exact h

theorem audioDuration_nonneg {received : Rat} {audio : List Chunk}
    (h : ∀ chunk ∈ audio, chunk.Within received) : 0 ≤ audioDuration audio := by
  apply List.sum_nonneg
  intro duration hduration
  obtain ⟨chunk, hchunk, rfl⟩ := List.mem_map.mp hduration
  exact (h chunk hchunk).duration

theorem audioStop_le {received : Rat} {audio : List Chunk} (hne : audio ≠ [])
    (h : ∀ chunk ∈ audio, chunk.Within received) : audioStop audio ≤ received := by
  rw [audioStop, List.getLast?_eq_getLast_of_ne_nil hne]
  exact (h _ (List.getLast_mem hne)).stop

/-- The last of the words in order ends last. -/
theorem WordsInOrder.le_lastEnd {first last : Rat} {words : List Word}
    (h : WordsInOrder first last words) : ∀ w ∈ words, w.end ≤ lastEnd words := by
  intro w hw
  have hne : words ≠ [] := List.ne_nil_of_mem hw
  rw [lastEnd, List.getLast?_eq_getLast_of_ne_nil hne]
  show w.end ≤ (words.getLast hne).end
  have hsplit : words = words.dropLast ++ [words.getLast hne] :=
    (List.dropLast_append_getLast hne).symm
  have hordered := h.ordered
  rw [hsplit] at hw hordered
  rcases List.mem_append.mp hw with hold | hlast
  · exact ((List.pairwise_append.mp hordered).2.2 w hold _ (List.mem_singleton_self _)).2
  · rw [List.mem_singleton.mp hlast]

theorem WordsInOrder.shift {duration : Rat} {words : List Word}
    (h : WordsInOrder 0 duration words) (offset : Rat) :
    WordsInOrder offset (offset + duration) (words.map (Word.shift offset)) := by
  constructor
  · rw [List.pairwise_map]
    apply h.ordered.imp
    intro a b hab
    exact ⟨add_le_add_right hab.1 offset, add_le_add_right hab.2 offset⟩
  · intro w hw
    obtain ⟨v, hv, rfl⟩ := List.mem_map.mp hw
    exact add_le_add_right (h.forward v hv) offset
  · intro w hw
    obtain ⟨v, hv, rfl⟩ := List.mem_map.mp hw
    have hwithin := h.within v hv
    constructor
    · show offset ≤ offset + v.start
      linarith
    · show offset + v.end ≤ offset + duration
      linarith

/-- Where the entries end, from a position on. -/
def endOf : Rat → List Entry → Rat
  | position, [] => position
  | _, .piece audio _ :: rest => endOf (audioStop audio) rest
  | _, .streamed words :: rest => endOf (lastEnd words) rest

theorem endOf_append (position : Rat) (entries : List Entry) (entry : Entry) :
    endOf position (entries ++ [entry]) = endOf 0 [entry] := by
  induction entries generalizing position with
  | nil => cases entry <;> rfl
  | cons first rest ih => cases first <;> exact ih _

theorem gapless_append (position : Rat) (entries : List Entry) (entry : Entry) :
    Gapless position (entries ++ [entry]) ↔
      Gapless position entries ∧ Gapless (endOf position entries) [entry] := by
  induction entries generalizing position with
  | nil => simp [Gapless, endOf]
  | cons first rest ih =>
      cases first with
      | piece audio transcript => simp only [List.cons_append, Gapless, endOf, ih, and_assoc]
      | streamed words => simp only [List.cons_append, Gapless, endOf, ih, and_assoc]

theorem forall₂_append_singleton {α β : Type} {R : α → β → Prop} {l : List α} {l' : List β}
    {a : α} {b : β} :
    List.Forall₂ R (l ++ [a]) (l' ++ [b]) ↔ List.Forall₂ R l l' ∧ R a b := by
  rw [← List.forall₂_reverse_iff]
  simp only [List.reverse_append, List.reverse_cons, List.reverse_nil, List.nil_append,
    List.singleton_append, List.forall₂_cons, List.forall₂_reverse_iff]
  exact and_comm

section Placed

variable {assembler : TranscriptAssembler} {entry : Entry} {transcript : Transcript}

/-- A segment that is placed at the end of the entries is right when it leaves no gap. -/
theorem timedBy_place_iff (assembler : TranscriptAssembler) {received : Rat}
    (htranscript : entry.HasTranscript transcript)
    (hsound : entry.Sound received) :
    entry.TimedBy (assembler.place transcript entry.length) ↔
      Gapless assembler.currentTime [entry] := by
  cases entry with
  | piece audio t =>
      have htranscript : transcript = t := htranscript
      subst htranscript
      simp only [Entry.TimedBy, TranscriptAssembler.place, Entry.length, Gapless, and_true]
      constructor
      · rintro ⟨hstart, hstop, _⟩
        rw [← hstart]
        exact ⟨rfl, hstop⟩
      · rintro ⟨hstart, hstop⟩
        rw [← hstart]
        exact ⟨rfl, hstop, rfl⟩
  | streamed words =>
      have htranscript : extractWords transcript = words := htranscript
      simp only [Entry.TimedBy, TranscriptAssembler.place, Entry.length, Gapless, and_true,
        htranscript, map_shift_eq_self hsound, add_eq_right, and_self]
      constructor
      · rintro ⟨hstart, hzero⟩
        exact ⟨hzero, hstart ▸ hzero⟩
      · rintro ⟨hzero, hfirst⟩
        exact ⟨hzero.trans hfirst.symm, hzero⟩

theorem endOf_singleton (h : Gapless assembler.currentTime [entry]) :
    endOf 0 [entry] = assembler.currentTime + entry.length := by
  cases entry with
  | piece audio t =>
      obtain ⟨hstart, hstop, _⟩ := h
      rw [← hstart]
      exact hstop.symm
  | streamed words =>
      have hzero : assembler.currentTime = 0 := h.1
      rw [hzero, zero_add]
      rfl

end Placed

/-- The segments have the right times exactly when nothing lies between the entries, and
then the assembler stands where the last entry ended. -/
theorem Assembled.timed_iff {entries : List Entry} {assembler : TranscriptAssembler}
    {received : Rat} (h : Assembled entries assembler)
    (hsound : ∀ entry ∈ entries, entry.Sound received) :
    (List.Forall₂ (fun entry segment => entry.TimedBy segment) entries assembler.segments ↔
      Gapless 0 entries) ∧
    (Gapless 0 entries → assembler.currentTime = endOf 0 entries) := by
  induction h with
  | empty => exact ⟨iff_of_true List.Forall₂.nil trivial, fun _ => rfl⟩
  | @add entries assembler entry transcript _ htranscript ih =>
      obtain ⟨htimed, htime⟩ := ih fun e he => hsound e (List.mem_append_left _ he)
      have hlast : entry.Sound received :=
        hsound entry (List.mem_append_right _ (List.mem_singleton_self _))
      have hplace := timedBy_place_iff assembler htranscript hlast
      constructor
      · rw [gapless_append]
        simp only [TranscriptAssembler.addTranscript, forall₂_append_singleton, htimed, hplace]
        constructor
        · rintro ⟨hgapless, hentry⟩
          exact ⟨hgapless, htime hgapless ▸ hentry⟩
        · rintro ⟨hgapless, hentry⟩
          exact ⟨hgapless, (htime hgapless).symm ▸ hentry⟩
      · intro hgapless
        rw [gapless_append] at hgapless
        rw [← htime hgapless.1] at hgapless
        rw [endOf_append, endOf_singleton hgapless.2]
        rfl

/-- What is known about the assembler while nothing lies between the entries. -/
structure Ordered (received : Rat) (assembler : TranscriptAssembler) : Prop where
  segments : SegmentsInOrder received assembler.segments
  past : ∀ s ∈ assembler.segments, s.end ≤ assembler.currentTime
  time : 0 ≤ assembler.currentTime ∧ assembler.currentTime ≤ received

/-- The segment of an entry that leaves no gap lies within the received audio. -/
theorem place_within {received : Rat} {assembler : TranscriptAssembler} {entry : Entry}
    {transcript : Transcript} (htranscript : entry.HasTranscript transcript)
    (hgapless : Gapless assembler.currentTime [entry]) (hsound : entry.Sound received)
    (hwell : entry.WellTimed received) :
    0 ≤ entry.length ∧ assembler.currentTime + entry.length ≤ received ∧
      WordsInOrder assembler.currentTime (assembler.currentTime + entry.length)
        ((extractWords transcript).map (Word.shift assembler.currentTime)) := by
  cases entry with
  | piece audio t =>
      have htranscript : transcript = t := htranscript
      subst htranscript
      obtain ⟨hstart, hstop, _⟩ := hgapless
      refine ⟨audioDuration_nonneg hsound.2, ?_, WordsInOrder.shift hwell _⟩
      rw [← hstart]
      exact hstop.le.trans (audioStop_le hsound.1 hsound.2)
  | streamed words =>
      have htranscript : extractWords transcript = words := htranscript
      have hzero : assembler.currentTime = 0 := hgapless.1
      have hne : words ≠ [] := hsound
      have hwords : WordsInOrder 0 received words := hwell
      obtain ⟨w, hw⟩ := List.exists_mem_of_ne_nil words hne
      have hlast := hwords.le_lastEnd
      have hlength : Entry.length (.streamed words) = lastEnd words := rfl
      rw [hzero, zero_add, hlength, htranscript, (map_shift_eq_self hne 0).mpr rfl]
      refine ⟨?_, ?_, hwords.ordered, hwords.forward, ?_⟩
      · calc 0 ≤ w.start := (hwords.within w hw).1
          _ ≤ w.end := hwords.forward w hw
          _ ≤ lastEnd words := hlast w hw
      · rw [lastEnd, List.getLast?_eq_getLast_of_ne_nil hne]
        exact (hwords.within _ (List.getLast_mem hne)).2
      · intro v hv
        exact ⟨(hwords.within v hv).1, hlast v hv⟩

theorem Assembled.ordered {entries : List Entry} {assembler : TranscriptAssembler} {received : Rat}
    (h : Assembled entries assembler) (hpositive : 0 ≤ received)
    (hsound : ∀ entry ∈ entries, entry.Sound received)
    (hwell : ∀ entry ∈ entries, entry.WellTimed received) (hgapless : Gapless 0 entries) :
    Ordered received assembler := by
  induction h with
  | empty =>
      constructor
      · constructor <;> simp [TranscriptAssembler.empty]
      · simp [TranscriptAssembler.empty]
      · exact ⟨le_rfl, hpositive⟩
  | @add entries assembler entry transcript hassembled htranscript ih =>
      have hold : ∀ e ∈ entries, e.Sound received :=
        fun e he => hsound e (List.mem_append_left _ he)
      have hmem : entry ∈ entries ++ [entry] :=
        List.mem_append_right _ (List.mem_singleton_self _)
      rw [gapless_append] at hgapless
      have hbefore := ih hold (fun e he => hwell e (List.mem_append_left _ he)) hgapless.1
      have hentry := hgapless.2
      rw [← (hassembled.timed_iff hold).2 hgapless.1] at hentry
      obtain ⟨hlength, hstop, hwords⟩ :=
        place_within htranscript hentry (hsound entry hmem) (hwell entry hmem)
      have hstart := hbefore.time.1
      have hforward : assembler.currentTime ≤ assembler.currentTime + entry.length := by linarith
      constructor
      · constructor
        · simp only [TranscriptAssembler.addTranscript, List.pairwise_append]
          refine ⟨hbefore.segments.ordered, List.pairwise_singleton _ _, ?_⟩
          intro s hs t ht
          rw [List.mem_singleton.mp ht]
          exact hbefore.past s hs
        · intro s hs
          rcases List.mem_append.mp hs with hs | hs
          · exact hbefore.segments.within s hs
          · rw [List.mem_singleton.mp hs]
            exact ⟨hstart, hforward, hstop⟩
        · intro s hs
          rcases List.mem_append.mp hs with hs | hs
          · exact hbefore.segments.words s hs
          · rw [List.mem_singleton.mp hs]
            exact hwords
      · intro s hs
        rcases List.mem_append.mp hs with hs | hs
        · exact (hbefore.past s hs).trans hforward
        · rw [List.mem_singleton.mp hs]
          exact le_rfl
      · exact ⟨hstart.trans hforward, hstop⟩

/-- The detector holds received audio only. -/
def Vad.VADProcessor.Holds (received : Rat) (vad : Vad.VADProcessor Chunk) : Prop :=
  (∀ chunk ∈ vad.speechBuffer, chunk.Within received) ∧
    ∀ chunk ∈ vad.lookbackBuffer, chunk.Within received

/-- What every step of a session keeps. -/
structure Kept (s : TimelineSession) : Prop where
  assembled : Assembled s.entries s.assembler
  sound : ∀ entry ∈ s.entries, entry.Sound s.position
  vad : ∀ vad ∈ s.vad, vad.Holds s.position
  buffer : ∀ chunk ∈ s.speechAudioBuffer, chunk.Within s.position
  words : s.textParts ≠ [] → s.words ≠ []
  position : 0 ≤ s.position

namespace Vad.VADProcessor

variable {vad : VADProcessor Chunk} {received : Rat}

theorem Holds.mono (h : vad.Holds received) {later : Rat} (hle : received ≤ later) :
    vad.Holds later :=
  ⟨fun chunk hchunk => (h.1 chunk hchunk).mono hle,
    fun chunk hchunk => (h.2 chunk hchunk).mono hle⟩

theorem Holds.resetSpeechState (h : vad.Holds received) : vad.resetSpeechState.Holds received :=
  ⟨fun _ hchunk => (by cases hchunk), h.2⟩

/-- The state machine keeps to the received audio, and so does the speech it returns. -/
theorem Holds.advance (h : vad.Holds received) {chunk : Chunk} (hchunk : chunk.Within received)
    (duration : Rat) (isSpeech : Bool) :
    (vad.advance chunk duration isSpeech).1.Holds received ∧
      ∀ speech ∈ (vad.advance chunk duration isSpeech).2.speechAudio,
        ∀ c ∈ speech, c.Within received := by
  have hboth : ∀ {audio : List Chunk}, (∀ c ∈ audio, c.Within received) →
      ∀ c ∈ audio ++ [chunk], c.Within received := by
    intro audio haudio c hc
    rcases List.mem_append.mp hc with hc | hc
    · exact haudio c hc
    · rw [List.mem_singleton.mp hc]
      exact hchunk
  have hlookback : ∀ c ∈ vad.pushLookback chunk, c.Within received := by
    intro c hc
    rw [VADProcessor.pushLookback] at hc
    split_ifs at hc
    · exact hboth h.2 c (List.mem_of_mem_tail hc)
    · exact hboth h.2 c hc
  rw [VADProcessor.advance]
  cases vad.state with
  | silence =>
      cases isSpeech with
      | false => exact ⟨⟨h.1, hlookback⟩, fun _ hspeech => by cases hspeech⟩
      | true => exact ⟨⟨hlookback, hlookback⟩, fun _ hspeech => by cases hspeech⟩
  | speech =>
      cases isSpeech with
      | false =>
          simp only [Bool.false_eq_true, if_false]
          split_ifs
          · refine ⟨⟨fun _ hc => (by cases hc), hlookback⟩, fun speech hspeech => ?_⟩
            rw [← Option.some.inj hspeech]
            exact hboth h.1
          · exact ⟨⟨fun _ hc => (by cases hc), hlookback⟩, fun _ hspeech => by cases hspeech⟩
          · exact ⟨⟨hboth h.1, hlookback⟩, fun _ hspeech => by cases hspeech⟩
      | true => exact ⟨⟨hboth h.1, hlookback⟩, fun _ hspeech => by cases hspeech⟩

theorem Holds.flush (h : vad.Holds received) :
    vad.flush.1.Holds received ∧ ∀ audio ∈ vad.flush.2, ∀ chunk ∈ audio, chunk.Within received := by
  rw [VADProcessor.flush]
  split_ifs
  · refine ⟨h.resetSpeechState, fun audio haudio => ?_⟩
    rw [← Option.some.inj haudio]
    exact h.1
  · exact ⟨h.resetSpeechState, fun _ haudio => by cases haudio⟩

theorem Holds.forceEndpoint (h : vad.Holds received) :
    vad.forceEndpoint.1.Holds received ∧
      ∀ audio ∈ vad.forceEndpoint.2, ∀ chunk ∈ audio, chunk.Within received := by
  rw [VADProcessor.forceEndpoint]
  split_ifs
  · exact ⟨h, fun _ haudio => by cases haudio⟩
  · refine ⟨⟨fun _ hchunk => (by cases hchunk), h.2⟩, fun audio haudio => ?_⟩
    rw [← Option.some.inj haudio]
    exact h.1

end Vad.VADProcessor

/-- Audio that may be missing is received audio. -/
theorem within_getD {received : Rat} {audio : Option (List Chunk)}
    (h : ∀ speech ∈ audio, ∀ chunk ∈ speech, chunk.Within received) :
    ∀ chunk ∈ audio.getD [], chunk.Within received := by
  cases audio with
  | none => exact fun chunk hchunk => by cases hchunk
  | some speech => exact h speech rfl

namespace Kept

variable {config : TimelineConfig} {s : TimelineSession}

theorem fresh (vad : Option Vad.VADConfig) : Kept (.fresh vad) := by
  constructor
  · exact Assembled.empty
  · intro entry hentry
    cases hentry
  · intro detector hdetector
    obtain ⟨vadConfig, _, rfl⟩ := Option.mem_map.mp hdetector
    exact ⟨fun _ hchunk => (by cases hchunk), fun _ hchunk => (by cases hchunk)⟩
  · intro chunk hchunk
    cases hchunk
  · intro hne
    exact absurd rfl hne
  · exact le_rfl

theorem withVad (h : Kept s) {vad : Vad.VADProcessor Chunk} (hvad : vad.Holds s.position) :
    Kept { s with vad := some vad } :=
  ⟨h.assembled, h.sound, fun _ hmem => Option.some.inj hmem ▸ hvad, h.buffer, h.words,
    h.position⟩

theorem withBuffer (h : Kept s) {audio : List Chunk}
    (haudio : ∀ chunk ∈ audio, chunk.Within s.position) :
    Kept { s with speechAudioBuffer := audio } :=
  ⟨h.assembled, h.sound, h.vad, haudio, h.words, h.position⟩

theorem advance (h : Kept s) {seconds : Rat} (hseconds : 0 ≤ seconds) :
    Kept { s with position := s.position + seconds } := by
  have hle : s.position ≤ s.position + seconds := by linarith
  exact ⟨h.assembled, fun entry hentry => (h.sound entry hentry).mono hle,
    fun vad hvad => (h.vad vad hvad).mono hle,
    fun chunk hchunk => (h.buffer chunk hchunk).mono hle, h.words, h.position.trans hle⟩

theorem addEntry (h : Kept s) (entry : Entry) (transcript : Transcript)
    (htranscript : entry.HasTranscript transcript) (hsound : entry.Sound s.position) :
    Kept (s.addEntry entry transcript entry.length) := by
  constructor
  · exact h.assembled.add htranscript
  · intro e he
    rcases List.mem_append.mp he with he | he
    · exact h.sound e he
    · rw [List.mem_singleton.mp he]
      exact hsound
  · exact h.vad
  · exact h.buffer
  · exact h.words
  · exact h.position

theorem transcribeAndSend (h : Kept s) {audio : List Chunk} (hne : audio ≠ [])
    (haudio : ∀ chunk ∈ audio, chunk.Within s.position) (reply : Option Transcript) :
    Kept (s.transcribeAndSend audio reply) := by
  unfold TimelineSession.transcribeAndSend
  split
  · exact h
  · split
    · exact h
    · exact h.addEntry (.piece audio _) _ rfl ⟨hne, haudio⟩

theorem transcribeRemaining (h : Kept s) {audio : List Chunk}
    (haudio : ∀ chunk ∈ audio, chunk.Within s.position) (reply : Option Transcript) :
    Kept (s.transcribeRemaining audio reply) := by
  unfold TimelineSession.transcribeRemaining
  split
  · exact h
  · rename_i hempty
    exact h.transcribeAndSend (by simpa using hempty) haudio reply

theorem flushStreamingFinal (h : Kept s) : Kept s.flushStreamingFinal := by
  unfold TimelineSession.flushStreamingFinal
  split
  · exact h
  · rename_i hempty
    have hwords : s.words ≠ [] := h.words (by simpa using hempty)
    have hadded := h.addEntry (.streamed s.words) (streamingTranscript s.textParts s.words)
      (extractWords_streamingTranscript s.textParts s.words) hwords
    exact ⟨hadded.assembled, hadded.sound, hadded.vad, hadded.buffer,
      fun hne => absurd rfl hne, hadded.position⟩

theorem decoded (h : Kept s) (result : Transcript) : Kept (s.decoded result) := by
  unfold TimelineSession.decoded
  split
  · rename_i hresult
    exact ⟨h.assembled, h.sound, h.vad, h.buffer,
      fun _ => List.append_ne_nil_of_right_ne_nil _ hresult.2, h.position⟩
  · exact h

theorem processChunkVad (h : Kept s) {vad : Vad.VADProcessor Chunk}
    (hvad : vad.Holds s.position) {chunk : Chunk} (hchunk : chunk.Within s.position)
    (isSpeech : Bool) (reply : Option Transcript) :
    Kept (s.processChunkVad config vad chunk isSpeech reply) := by
  obtain ⟨hafter, hspeech⟩ := hvad.advance hchunk (config.detectorDuration chunk) isSpeech
  unfold TimelineSession.processChunkVad
  dsimp only
  split
  · exact (h.withVad hafter).transcribeRemaining (within_getD hspeech) reply
  · split
    · unfold TimelineSession.checkMaxUtteranceDuration
      split
      · obtain ⟨hforced, haudio⟩ := hafter.forceEndpoint
        exact (h.withVad hforced).transcribeRemaining (within_getD haudio) reply
      · exact h.withVad hafter
    · exact h.withVad hafter

theorem processChunkStreaming (h : Kept s) {vad : Vad.VADProcessor Chunk}
    (hvad : vad.Holds s.position) {chunk : Chunk} (hchunk : chunk.Within s.position)
    (isSpeech : Bool) : Kept (s.processChunkStreaming config vad chunk isSpeech) := by
  have hafter := h.withVad (hvad.advance hchunk (config.detectorDuration chunk) isSpeech).1
  unfold TimelineSession.processChunkStreaming
  dsimp only
  split
  · exact hafter.flushStreamingFinal
  · exact hafter

theorem processChunkNoVad (h : Kept s) {chunk : Chunk} (hchunk : chunk.Within s.position)
    (reply : Option Transcript) : Kept (s.processChunkNoVad config chunk reply) := by
  have haudio : ∀ c ∈ s.speechAudioBuffer ++ [chunk], c.Within s.position := by
    intro c hc
    rcases List.mem_append.mp hc with hc | hc
    · exact h.buffer c hc
    · rw [List.mem_singleton.mp hc]
      exact hchunk
  unfold TimelineSession.processChunkNoVad
  dsimp only
  split
  · have hempty : ∀ c ∈ ([] : List Chunk), c.Within s.position := fun _ hc => by cases hc
    exact (h.withBuffer hempty).transcribeAndSend (by simp) haudio reply
  · exact h.withBuffer haudio

theorem takeChunk (h : Kept s) (isSpeech : Bool) (reply : Option Transcript) :
    Kept (s.takeChunk config isSpeech reply) := by
  have hseconds := config.chunkSeconds_pos.le
  have hmoved := h.advance hseconds
  have hchunk : Chunk.Within (s.position + config.chunkSeconds)
      ⟨s.position, config.chunkSeconds⟩ := ⟨h.position, hseconds, le_rfl⟩
  unfold TimelineSession.takeChunk TimelineSession.processChunk
  split
  · rename_i vad hvad
    have hholds := hmoved.vad vad hvad
    split
    · exact hmoved.processChunkStreaming hholds hchunk isSpeech
    · exact hmoved.processChunkVad hholds hchunk isSpeech reply
  · split
    · exact hmoved
    · exact hmoved.processChunkNoVad hchunk reply

theorem flushVad (h : Kept s) (reply : Option Transcript) : Kept (s.flushVad config reply) := by
  unfold TimelineSession.flushVad
  split
  · exact h
  · rename_i vad hvad
    obtain ⟨hafter, haudio⟩ := (h.vad vad hvad).flush
    dsimp only
    split
    · exact h.withVad hafter
    · exact (h.withVad hafter).transcribeRemaining (within_getD haudio) reply

theorem flushBuffer (h : Kept s) {remaining : Rat} (hremaining : 0 ≤ remaining)
    (reply : Option Transcript) : Kept (s.flushBuffer config remaining reply) := by
  have hmoved := h.advance hremaining
  unfold TimelineSession.flushBuffer
  dsimp only
  split
  · apply hmoved.transcribeAndSend (by simp)
    intro chunk hchunk
    rw [List.mem_singleton.mp hchunk]
    exact ⟨h.position, hremaining, le_rfl⟩
  · exact hmoved

/-- The streamed words come first in a streaming session. -/
theorem flushFirst (h : Kept s) (config : TimelineConfig) :
    Kept (if config.streaming then s.flushStreamingFinal else s) := by
  split
  · exact h.flushStreamingFinal
  · exact h

theorem clear (h : Kept s) {remaining : Rat} (hremaining : 0 ≤ remaining) :
    Kept (s.clear remaining) := by
  have hmoved := h.advance hremaining
  constructor
  · exact hmoved.assembled
  · exact hmoved.sound
  · intro vad hvad
    obtain ⟨before, hbefore, rfl⟩ := Option.mem_map.mp hvad
    exact (hmoved.vad before hbefore).resetSpeechState
  · intro chunk hchunk
    cases hchunk
  · intro hne
    exact absurd rfl hne
  · exact hmoved.position

theorem update (h : Kept s) (vadConfig : Vad.VADConfig) : Kept (s.update vadConfig) := by
  refine ⟨h.assembled, h.sound, ?_, h.buffer, h.words, h.position⟩
  intro vad hvad
  obtain ⟨before, hbefore, rfl⟩ := Option.mem_map.mp hvad
  exact h.vad before hbefore

theorem sendSessionEnd (h : Kept s) (reply : Option Transcript) :
    Kept (s.sendSessionEnd config reply) := by
  have hflushed := h.flushFirst config
  unfold TimelineSession.sendSessionEnd
  dsimp only
  split
  · rename_i vad hvad
    obtain ⟨hafter, haudio⟩ := (hflushed.vad vad hvad).flush
    exact (hflushed.withVad hafter).transcribeRemaining (within_getD haudio) reply
  · have hempty : ∀ c ∈ ([] : List Chunk),
        c.Within (if config.streaming then s.flushStreamingFinal else s).position :=
      fun _ hc => by cases hc
    exact (hflushed.withBuffer hempty).transcribeRemaining hflushed.buffer reply

theorem apply (h : Kept s) {event : TimelineEvent} (hvalid : event.Valid) :
    Kept (event.apply config s) := by
  cases event with
  | chunk isSpeech reply => exact h.takeChunk isSpeech reply
  | flush remaining speechReply reply =>
      exact ((h.flushFirst config).flushVad speechReply).flushBuffer hvalid reply
  | clear remaining => exact h.clear hvalid
  | update vadConfig => exact h.update vadConfig
  | decoded result => exact h.decoded result
  | sessionEnd reply => exact h.sendSessionEnd reply

theorem timeline (config : TimelineConfig) (vad : Option Vad.VADConfig)
    {events : List TimelineEvent} (hvalid : ∀ event ∈ events, event.Valid) : Kept (timeline config vad events) := by
  unfold Realtime.timeline
  have hstart := Kept.fresh vad
  generalize TimelineSession.fresh vad = s at hstart
  induction events generalizing s with
  | nil => exact hstart
  | cons event rest ih =>
      rw [List.foldl_cons]
      exact ih (fun e he => hvalid e (List.mem_cons_of_mem _ he))
        (event.apply config s) (hstart.apply (hvalid event List.mem_cons_self))

end Kept

/-- The timeline of a session is that of its received audio exactly when nothing lies between
the pieces it has transcribed: no silence, empty transcript, discarded or repeated audio, and
no words of a streaming decoder that begin after 0 or come after an entry of positive length. -/
theorem trueTimeline_iff (config : TimelineConfig) (vad : Option Vad.VADConfig)
    {events : List TimelineEvent} (hvalid : ∀ event ∈ events, event.Valid) :
    TrueTimeline (timeline config vad events) ↔ Gapless 0 (timeline config vad events).entries := by
  have hkept := Kept.timeline config vad hvalid
  have htimed := (hkept.assembled.timed_iff hkept.sound).1
  constructor
  · intro h
    exact htimed.mp h.times
  · intro hgapless
    constructor
    · exact htimed.mpr hgapless
    · intro hwell
      exact (hkept.assembled.ordered hkept.position hkept.sound hwell hgapless).segments

instance decidableGapless : (position : Rat) → (entries : List Entry) →
    Decidable (Gapless position entries)
  | _, [] => isTrue trivial
  | _, .piece audio _ :: rest =>
      have := decidableGapless (audioStop audio) rest
      inferInstanceAs (Decidable (_ ∧ _ ∧ _))
  | _, .streamed words :: rest =>
      have := decidableGapless (lastEnd words) rest
      inferInstanceAs (Decidable (_ ∧ _ ∧ _))

/-- Chunks of a tenth of a second, at most so many seconds in an utterance. -/
def tenthConfig (streaming : Bool) (maxUtteranceDuration : Rat) : TimelineConfig where
  chunkSeconds := 1 / 10
  channels := 1
  streaming := streaming
  maxUtteranceDuration := maxUtteranceDuration
  chunkSeconds_pos := by norm_num

/-- A transcript of one word. -/
def oneWord (text : String) (start stop : Rat) : Transcript :=
  ⟨text, [⟨some [⟨text, start, stop, none⟩], none⟩], none⟩

/-- Two pieces of a tenth of a second without voice activity detection. -/
def adjacentEvents : List TimelineEvent :=
  [.chunk true (some (oneWord "a" 0 (1 / 10))), .chunk true (some (oneWord "b" 0 (1 / 10)))]

theorem trueTimeline_iff_adjacent :
    TrueTimeline (timeline (tenthConfig false (1 / 10)) none adjacentEvents) ↔
      Gapless 0 (timeline (tenthConfig false (1 / 10)) none adjacentEvents).entries := by
  apply trueTimeline_iff
  simp [adjacentEvents, TimelineEvent.Valid]

/-- Half a second of silence, then an utterance. -/
def silenceFirst : List TimelineEvent :=
  List.replicate 5 (.chunk false none) ++ List.replicate 3 (.chunk true none) ++
    List.replicate 4 (.chunk false (some (oneWord "hello" 0 (1 / 10))))

/-- Two endpoints of a streaming session with one word each. -/
def twoFinals : List TimelineEvent :=
  [.decoded (oneWord "a" 0 (1 / 2)), .flush 0 none none,
    .decoded (oneWord "b" (6 / 10) 1), .flush 0 none none]

/-- An utterance after a silence is put at the start of the session, and the words of a second
streaming final are moved by the end of the first. -/
theorem timeline_shifted :
    ((timeline (tenthConfig false 30) (some {}) silenceFirst).assembler.segments.map
        (·.start) = [0] ∧
      ¬ TrueTimeline (timeline (tenthConfig false 30) (some {}) silenceFirst)) ∧
    ((timeline (tenthConfig true 30) none twoFinals).assembler.segments.map
        (fun s => s.words.map (·.start)) = [[0], [11 / 10]] ∧
      ¬ TrueTimeline (timeline (tenthConfig true 30) none twoFinals)) := by
  have hsilence : ∀ event ∈ silenceFirst, event.Valid := by
    simp [silenceFirst, TimelineEvent.Valid]
  have hfinals : ∀ event ∈ twoFinals, event.Valid := by
    simp [twoFinals, TimelineEvent.Valid]
  refine ⟨⟨by decide +kernel, fun h => ?_⟩, by decide +kernel, fun h => ?_⟩
  · have hkept := Kept.timeline (tenthConfig false 30) (some {}) hsilence
    have hgapless := (hkept.assembled.timed_iff hkept.sound).1.mp h.times
    exact absurd hgapless (by decide +kernel)
  · have hkept := Kept.timeline (tenthConfig true 30) none hfinals
    have hgapless := (hkept.assembled.timed_iff hkept.sound).1.mp h.times
    exact absurd hgapless (by decide +kernel)

end Dalston.Realtime
