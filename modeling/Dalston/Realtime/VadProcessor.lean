import Dalston.Model.Rounding

/-!
# Utterances of the voice activity detector

The detector of a session takes one audio chunk after the other with its speech probability.
Speech opens an utterance with the chunks kept for lookback, and a silence that is long
enough closes it. An utterance can also be flushed, cleared or cut off while speech goes on.

## Implementation notes

A chunk is any value with a number of samples, and an utterance is the list of the chunks
that are joined to its audio. Durations are added as doubles. The probability that the model
gives a chunk is a part of the operation.
-/

namespace Dalston.Realtime.Vad

open Model

structure VADConfig where
  speechThreshold : Rat := 1 / 2
  minSpeechDuration : Rat := 1 / 4
  minSilenceDuration : Rat := roundDouble (2 / 5)
  sampleRate : Nat := 16000
  lookbackChunks : Nat := 3

inductive VADState
  | silence
  | speech
  deriving DecidableEq

inductive VADEvent
  | speechStart
  | speechEnd

structure VADResult (C : Type) where
  event : Option VADEvent
  speechAudio : Option (List C) := none

structure VADProcessor (C : Type) where
  config : VADConfig
  state : VADState := .silence
  speechBuffer : List C := []
  lookbackBuffer : List C := []
  silenceDuration : Rat := 0
  speechDuration : Rat := 0

namespace VADProcessor

variable {C : Type}

/-- The lookback buffer with the chunk: one chunk at most is dropped from its front. -/
def pushLookback (v : VADProcessor C) (audio : C) : List C :=
  let pushed := v.lookbackBuffer ++ [audio]
  if v.config.lookbackChunks < pushed.length then pushed.tail else pushed

def resetSpeechState (v : VADProcessor C) : VADProcessor C :=
  { v with state := .silence, speechBuffer := [], silenceDuration := 0, speechDuration := 0 }

/-- The state machine on a chunk of this duration. -/
def advance (v : VADProcessor C) (audio : C) (duration : Rat) (isSpeech : Bool) :
    VADProcessor C × VADResult C :=
  let heard := { v with lookbackBuffer := v.pushLookback audio }
  match v.state with
  | .silence =>
    if isSpeech then
      ({ heard with
          state := .speech
          speechDuration := duration
          silenceDuration := 0
          speechBuffer := v.pushLookback audio }, { event := some .speechStart })
    else (heard, { event := none })
  | .speech =>
    if isSpeech then
      ({ heard with
          speechBuffer := v.speechBuffer ++ [audio]
          speechDuration := roundDouble (v.speechDuration + duration)
          silenceDuration := 0 }, { event := none })
    else
      let waited := { heard with
        speechBuffer := v.speechBuffer ++ [audio]
        silenceDuration := roundDouble (v.silenceDuration + duration) }
      if v.config.minSilenceDuration ≤ waited.silenceDuration then
        if v.config.minSpeechDuration ≤ v.speechDuration then
          (waited.resetSpeechState,
            { event := some .speechEnd, speechAudio := some waited.speechBuffer })
        else (waited.resetSpeechState, { event := some .speechEnd })
      else (waited, { event := none })

variable (samples : C → Nat)

def chunkDuration (v : VADProcessor C) (audio : C) : Rat :=
  roundDouble (samples audio / v.config.sampleRate)

def processChunk (v : VADProcessor C) (audio : C) (prob : Rat) : VADProcessor C × VADResult C :=
  v.advance audio (v.chunkDuration samples audio) (decide (v.config.speechThreshold < prob))

def flush (v : VADProcessor C) : VADProcessor C × Option (List C) :=
  if v.state = .speech ∧ v.speechBuffer ≠ [] ∧ v.config.minSpeechDuration ≤ v.speechDuration then
    (v.resetSpeechState, some v.speechBuffer)
  else (v.resetSpeechState, none)

def clear (v : VADProcessor C) : VADProcessor C := v.resetSpeechState

def getSpeechBufferSamples (v : VADProcessor C) : Nat := (v.speechBuffer.map samples).sum

/-- The speech so far is an utterance, and the state stays as it is. -/
def forceEndpoint (v : VADProcessor C) : VADProcessor C × Option (List C) :=
  if v.speechBuffer = [] then (v, none)
  else ({ v with speechBuffer := [], speechDuration := 0, silenceDuration := 0 },
    some v.speechBuffer)

end VADProcessor

/-- What a session does with its detector. -/
inductive Op (C : Type)
  | processChunk (audio : C) (prob : Rat)
  | flush
  | clear
  | forceEndpoint
  | setLookbackChunks (chunks : Nat)

section Steps

variable {C : Type} (samples : C → Nat)

/-- One operation, with the utterance it returns. -/
def step (v : VADProcessor C) : Op C → VADProcessor C × Option (List C)
  | .processChunk audio prob =>
    let (v', result) := v.processChunk samples audio prob
    (v', result.speechAudio)
  | .flush => v.flush
  | .clear => (v.clear, none)
  | .forceEndpoint => v.forceEndpoint
  | .setLookbackChunks chunks =>
    ({ v with config := { v.config with lookbackChunks := chunks } }, none)

/-- The chunk opens an utterance. -/
def IsOnset (v : VADProcessor C) (prob : Rat) : Prop :=
  v.state = .silence ∧ v.config.speechThreshold < prob

instance (v : VADProcessor C) (prob : Rat) : Decidable (IsOnset v prob) :=
  inferInstanceAs (Decidable (v.state = .silence ∧ v.config.speechThreshold < prob))

/-- A returned utterance. Chunks are counted from the start of the session: `onset` is the
chunk that opened it, `ended` and `cleared` count the chunks up to the end of the utterance
before it and up to the last clear, `stop` those processed when it was returned. -/
structure Returned (C : Type) where
  audio : List C
  onset : Nat
  lookback : Nat
  ended : Nat
  cleared : Nat
  stop : Nat

/-- The account of a run, beside the detector. -/
structure Account (C : Type) where
  chunks : List C := []
  onset : Nat := 0
  lookback : Nat := 0
  ended : Nat := 0
  cleared : Nat := 0
  returned : List (Returned C) := []

/-- The chunk that an operation processes, and whether it opens an utterance. -/
def Account.hear (a : Account C) (v : VADProcessor C) : Op C → Account C
  | .processChunk audio prob =>
    if IsOnset v prob then
      { a with
        chunks := a.chunks ++ [audio]
        onset := a.chunks.length
        lookback := v.config.lookbackChunks }
    else { a with chunks := a.chunks ++ [audio] }
  | .clear => { a with cleared := a.chunks.length }
  | _ => a

def Account.return (a : Account C) : Option (List C) → Account C
  | none => a
  | some audio =>
    { a with
      ended := a.chunks.length
      returned := a.returned ++
        [⟨audio, a.onset, a.lookback, a.ended, a.cleared, a.chunks.length⟩] }

/-- The state of a run: the detector and the account. -/
structure Session (C : Type) where
  vad : VADProcessor C
  account : Account C := {}

def Session.next (s : Session C) (op : Op C) : Session C where
  vad := (step samples s.vad op).1
  account := (s.account.hear s.vad op).return (step samples s.vad op).2

def Session.run (s : Session C) (ops : List (Op C)) : Session C :=
  ops.foldl (Session.next samples) s

/-- An utterance that opens reaches back neither further than the lookback allows nor past the
end of the utterance before it or the last clear. -/
def Session.Fresh (s : Session C) : Op C → Prop
  | .processChunk audio prob => IsOnset s.vad prob →
      (s.vad.pushLookback audio).length ≤ s.vad.config.lookbackChunks ∧
      s.account.ended + (s.vad.pushLookback audio).length ≤ s.account.chunks.length + 1 ∧
      s.account.cleared + (s.vad.pushLookback audio).length ≤ s.account.chunks.length + 1
  | _ => True

/-- Every utterance of the run opens this way. -/
def Session.AllFresh (s : Session C) : List (Op C) → Prop
  | [] => True
  | op :: ops => s.Fresh op ∧ (s.next samples op).AllFresh ops

end Steps

section Cases

variable {C : Type} (samples : C → Nat) (v : VADProcessor C) (audio : C) (prob : Rat)

/-- What a chunk does to the buffers of the detector, and what it returns. -/
inductive ChunkMove : VADProcessor C × Option (List C) → Prop
  | onset (v' : VADProcessor C) (hspeech : v'.state = .speech)
      (hbuffer : v'.speechBuffer = v.pushLookback audio)
      (hlookback : v'.lookbackBuffer = v.pushLookback audio) (honset : IsOnset v prob) :
      ChunkMove (v', none)
  | quiet (v' : VADProcessor C) (hsilence : v'.state = .silence)
      (hbuffer : v'.speechBuffer = v.speechBuffer)
      (hlookback : v'.lookbackBuffer = v.pushLookback audio) (hstate : v.state = .silence)
      (hquiet : ¬ IsOnset v prob) : ChunkMove (v', none)
  | goesOn (v' : VADProcessor C) (hspeech : v'.state = .speech)
      (hbuffer : v'.speechBuffer = v.speechBuffer ++ [audio])
      (hlookback : v'.lookbackBuffer = v.pushLookback audio) (hstate : v.state = .speech) :
      ChunkMove (v', none)
  | closes (v' : VADProcessor C) (returned : Option (List C)) (hsilence : v'.state = .silence)
      (hbuffer : v'.speechBuffer = []) (hlookback : v'.lookbackBuffer = v.pushLookback audio)
      (hstate : v.state = .speech) (hreturned : ∀ u ∈ returned, u = v.speechBuffer ++ [audio]) :
      ChunkMove (v', returned)

theorem chunkMove : ChunkMove v audio prob (step samples v (.processChunk audio prob)) := by
  rw [step, VADProcessor.processChunk, VADProcessor.advance]
  cases hstate : v.state with
  | silence =>
      by_cases hspeech : v.config.speechThreshold < prob
      · simp only [hspeech, decide_true, if_true]
        exact .onset _ rfl rfl rfl ⟨hstate, hspeech⟩
      · simp only [hspeech, decide_false, Bool.false_eq_true, if_false]
        exact .quiet _ rfl rfl rfl hstate fun h => hspeech h.2
  | speech =>
      by_cases hspeech : v.config.speechThreshold < prob
      · simp only [hspeech, decide_true, if_true]
        exact .goesOn _ rfl rfl rfl hstate
      · simp only [hspeech, decide_false, Bool.false_eq_true, if_false]
        split_ifs
        · exact .closes _ _ rfl rfl rfl hstate fun u hu => (Option.mem_some_iff.mp hu).symm
        · exact .closes _ _ rfl rfl rfl hstate fun u hu => by simp at hu
        · exact .goesOn _ rfl rfl rfl hstate

end Cases

section Invariant

variable {C : Type} {samples : C → Nat}

theorem pushLookback_suffix {v : VADProcessor C} {chunks : List C}
    (h : v.lookbackBuffer <:+ chunks) (audio : C) : v.pushLookback audio <:+ chunks ++ [audio] := by
  have hpushed : v.lookbackBuffer ++ [audio] <:+ chunks ++ [audio] := by
    obtain ⟨front, rfl⟩ := h
    exact ⟨front, by rw [List.append_assoc]⟩
  rw [VADProcessor.pushLookback]
  split_ifs
  · exact (List.tail_suffix _).trans hpushed
  · exact hpushed

/-- The speech buffer holds the chunks from `start` on. -/
structure SpeechFrom (s : Session C) (start : Nat) : Prop where
  buffer : s.vad.speechBuffer = s.account.chunks.drop start
  le : start ≤ s.account.chunks.length
  ended : s.account.ended ≤ start
  cleared : s.account.cleared ≤ start
  onset : s.account.onset + 1 ≤ start + s.account.lookback
  opened : s.account.onset < s.account.chunks.length

/-- A returned utterance is a contiguous run of the chunks processed, from `lookback - 1`
chunks before its onset at the earliest, and after the utterance before it and the last clear. -/
def Returned.Contiguous (chunks : List C) (r : Returned C) : Prop :=
  ∃ start, r.ended ≤ start ∧ r.cleared ≤ start ∧ r.onset + 1 ≤ start + r.lookback ∧
    start ≤ r.stop ∧ r.stop ≤ chunks.length ∧ r.audio = (chunks.take r.stop).drop start

theorem Returned.Contiguous.append {chunks : List C} {r : Returned C}
    (h : r.Contiguous chunks) (more : List C) : r.Contiguous (chunks ++ more) := by
  obtain ⟨start, hended, hcleared, honset, hstart, hstop, haudio⟩ := h
  refine ⟨start, hended, hcleared, honset, hstart, ?_, ?_⟩
  · rw [List.length_append]
    omega
  · rw [haudio, List.take_append_of_le_length hstop]

/-- What holds between two operations. -/
structure Session.Sound (s : Session C) : Prop where
  lookback : s.vad.lookbackBuffer <:+ s.account.chunks
  ended : s.account.ended ≤ s.account.chunks.length
  cleared : s.account.cleared ≤ s.account.chunks.length
  silence : s.vad.state = .silence → s.vad.speechBuffer = []
  speech : s.vad.state = .speech → ∃ start, SpeechFrom s start
  contiguous : ∀ r ∈ s.account.returned, r.Contiguous s.account.chunks
  ordered : s.account.returned.Pairwise fun r r' => r.stop ≤ r'.ended
  before : ∀ r ∈ s.account.returned, r.stop ≤ s.account.ended

/-- An account whose utterance is the buffer of the session stays sound. -/
theorem Session.Sound.return {s : Session C} (h : s.Sound) {start : Nat}
    (hfrom : SpeechFrom s start) {vad : VADProcessor C}
    (hlookback : vad.lookbackBuffer = s.vad.lookbackBuffer) (hbuffer : vad.speechBuffer = []) :
    Session.Sound ⟨vad, s.account.return (some s.vad.speechBuffer)⟩ where
  lookback := by
    rw [hlookback]
    exact h.lookback
  ended := le_rfl
  cleared := h.cleared
  silence _ := hbuffer
  speech _ := ⟨s.account.chunks.length, by simp [Account.return, hbuffer], le_rfl, le_rfl,
    h.cleared, Nat.le_add_right_of_le hfrom.opened, hfrom.opened⟩
  contiguous := by
    intro r hr
    rcases List.mem_append.mp hr with hr | hr
    · exact h.contiguous r hr
    · obtain rfl := List.mem_singleton.mp hr
      refine ⟨start, hfrom.ended, hfrom.cleared, hfrom.onset, hfrom.le, le_rfl, ?_⟩
      calc s.vad.speechBuffer
          = s.account.chunks.drop start := hfrom.buffer
        _ = (s.account.chunks.take s.account.chunks.length).drop start := by
          rw [List.take_length]
  ordered := List.pairwise_append.mpr ⟨h.ordered, List.pairwise_singleton _ _,
    fun r hr r' hr' => by
      obtain rfl := List.mem_singleton.mp hr'
      exact h.before r hr⟩
  before := by
    intro r hr
    rcases List.mem_append.mp hr with hr | hr
    · exact (h.before r hr).trans h.ended
    · obtain rfl := List.mem_singleton.mp hr
      exact le_rfl

/-- The account with one more chunk. -/
def Account.heard (a : Account C) (audio : C) (onset lookback : Nat) : Account C :=
  { a with chunks := a.chunks ++ [audio], onset := onset, lookback := lookback }

@[simp] theorem Account.length_heard (a : Account C) (audio : C) (onset lookback : Nat) :
    (a.heard audio onset lookback).chunks.length = a.chunks.length + 1 := by
  simp [Account.heard]

theorem Account.hear_onset (a : Account C) {v : VADProcessor C} {audio : C} {prob : Rat}
    (h : IsOnset v prob) : a.hear v (.processChunk audio prob) =
      a.heard audio a.chunks.length v.config.lookbackChunks := by
  rw [Account.hear, if_pos h, Account.heard]

theorem Account.hear_quiet (a : Account C) {v : VADProcessor C} {audio : C} {prob : Rat}
    (h : ¬ IsOnset v prob) :
    a.hear v (.processChunk audio prob) = a.heard audio a.onset a.lookback := by
  rw [Account.hear, if_neg h, Account.heard]

/-- A chunk that is heard before the detector answers. -/
theorem Session.Sound.hear {s : Session C} (h : s.Sound) {audio : C} (onset lookback : Nat)
    {vad : VADProcessor C} (hlookback : vad.lookbackBuffer = s.vad.pushLookback audio)
    (hsilence : vad.state = .silence → vad.speechBuffer = [])
    (hspeech : vad.state = .speech →
      ∃ start, SpeechFrom ⟨vad, s.account.heard audio onset lookback⟩ start) :
    Session.Sound ⟨vad, s.account.heard audio onset lookback⟩ where
  lookback := by
    rw [hlookback]
    exact pushLookback_suffix h.lookback audio
  ended := by
    rw [Account.length_heard]
    exact Nat.le_succ_of_le h.ended
  cleared := by
    rw [Account.length_heard]
    exact Nat.le_succ_of_le h.cleared
  silence := hsilence
  speech := hspeech
  contiguous r hr := (h.contiguous r hr).append [audio]
  ordered := h.ordered
  before := h.before

/-- A chunk goes to the end of the speech buffer. -/
theorem SpeechFrom.hear {s : Session C} {start : Nat} (h : SpeechFrom s start) {audio : C}
    {vad : VADProcessor C} (hbuffer : vad.speechBuffer = s.vad.speechBuffer ++ [audio]) :
    SpeechFrom ⟨vad, s.account.heard audio s.account.onset s.account.lookback⟩ start where
  buffer := by
    rw [hbuffer, h.buffer, Account.heard, List.drop_append_of_le_length h.le]
  le := by
    rw [Account.length_heard]
    exact Nat.le_succ_of_le h.le
  ended := h.ended
  cleared := h.cleared
  onset := h.onset
  opened := by
    rw [Account.length_heard]
    exact Nat.lt_succ_of_lt h.opened

theorem Session.Sound.chunk {s : Session C} (h : s.Sound) {audio : C} {prob : Rat}
    (hfresh : s.Fresh (.processChunk audio prob)) :
    (s.next samples (.processChunk audio prob)).Sound := by
  rw [Session.next]
  have hmove := chunkMove samples s.vad audio prob
  generalize step samples s.vad (.processChunk audio prob) = result at hmove
  cases hmove with
  | onset v' hspeech hbuffer hlookback honset =>
      obtain ⟨hshort, hended, hcleared⟩ := hfresh honset
      rw [Account.hear_onset _ honset]
      refine h.hear _ _ hlookback (by simp [hspeech]) fun _ => ?_
      -- the utterance begins with the lookback
      have hsuffix := pushLookback_suffix h.lookback audio
      have hlen := hsuffix.length_le
      have htail := List.suffix_iff_eq_drop.mp hsuffix
      rw [List.length_append, List.length_singleton] at hlen htail
      refine ⟨s.account.chunks.length + 1 - (s.vad.pushLookback audio).length,
        hbuffer.trans htail, ?_, ?_, ?_, ?_, ?_⟩
      all_goals simp only [Account.heard, List.length_append, List.length_singleton]
      all_goals omega
  | quiet v' hsilence hbuffer hlookback hstate hquiet =>
      rw [Account.hear_quiet _ hquiet]
      refine h.hear _ _ hlookback (fun _ => ?_) (by simp [hsilence])
      rw [hbuffer, h.silence hstate]
  | goesOn v' hspeech hbuffer hlookback hstate =>
      have hquiet : ¬ IsOnset s.vad prob := fun honset => by simp [honset.1] at hstate
      obtain ⟨start, hfrom⟩ := h.speech hstate
      rw [Account.hear_quiet _ hquiet]
      exact h.hear _ _ hlookback (by simp [hspeech]) fun _ => ⟨start, hfrom.hear hbuffer⟩
  | closes v' returned hsilence hbuffer hlookback hstate hreturned =>
      have hquiet : ¬ IsOnset s.vad prob := fun honset => by simp [honset.1] at hstate
      obtain ⟨start, hfrom⟩ := h.speech hstate
      rw [Account.hear_quiet _ hquiet]
      cases returned with
      | none => exact h.hear _ _ hlookback (fun _ => hbuffer) (by simp [hsilence])
      | some u =>
          -- the detector as it is when the chunk is in the buffer
          let waiting : VADProcessor C :=
            { s.vad with
              speechBuffer := s.vad.speechBuffer ++ [audio]
              lookbackBuffer := s.vad.pushLookback audio }
          have hspeaking : waiting.state = .speech := hstate
          have hwaiting : Session.Sound
              ⟨waiting, s.account.heard audio s.account.onset s.account.lookback⟩ :=
            h.hear _ _ rfl (by simp [hspeaking]) fun _ => ⟨start, hfrom.hear rfl⟩
          rw [hreturned u rfl]
          exact hwaiting.return (hfrom.hear rfl) hlookback hbuffer

theorem Session.Sound.next {s : Session C} (h : s.Sound) {op : Op C} (hfresh : s.Fresh op) :
    (s.next samples op).Sound := by
  cases op with
  | processChunk audio prob => exact h.chunk hfresh
  | flush =>
      rw [Session.next, step, VADProcessor.flush]
      split_ifs with hreturn
      · obtain ⟨start, hfrom⟩ := h.speech hreturn.1
        exact h.return hfrom rfl rfl
      · exact { h with silence := fun _ => rfl, speech := fun hspeech => by cases hspeech }
  | clear =>
      rw [Session.next, step, VADProcessor.clear]
      exact { h with
        cleared := le_rfl
        silence := fun _ => rfl
        speech := fun hspeech => by cases hspeech }
  | forceEndpoint =>
      rw [Session.next, step, VADProcessor.forceEndpoint]
      split_ifs with hempty
      · exact h
      · have hstate : s.vad.state = .speech := by
          cases hstate : s.vad.state with
          | silence => exact absurd (h.silence hstate) hempty
          | speech => rfl
        obtain ⟨start, hfrom⟩ := h.speech hstate
        exact h.return hfrom rfl rfl
  | setLookbackChunks chunks =>
      rw [Session.next, step]
      refine { h with speech := fun hspeech => ?_ }
      obtain ⟨start, hfrom⟩ := h.speech hspeech
      exact ⟨start, ⟨hfrom.buffer, hfrom.le, hfrom.ended, hfrom.cleared, hfrom.onset,
        hfrom.opened⟩⟩

theorem Session.Sound.run {s : Session C} (h : s.Sound) {ops : List (Op C)}
    (hfresh : s.AllFresh samples ops) : (s.run samples ops).Sound := by
  induction ops generalizing s with
  | nil => exact h
  | cons op ops ih => exact ih (h.next hfresh.1) hfresh.2

theorem sound_initial (config : VADConfig) : Session.Sound (C := C) ⟨{ config := config }, {}⟩ where
  lookback := List.suffix_rfl
  ended := le_rfl
  cleared := le_rfl
  silence _ := rfl
  speech h := by cases h
  contiguous r hr := absurd hr List.not_mem_nil
  ordered := List.Pairwise.nil
  before r hr := absurd hr List.not_mem_nil

end Invariant

/-- In a run whose utterances open afresh, each one returned is a contiguous run of the chunks
processed, within the lookback of its onset, and no two have a chunk in common. -/
theorem returned_contiguous {C : Type} (samples : C → Nat) (config : VADConfig)
    (ops : List (Op C)) (hfresh : Session.AllFresh samples ⟨{ config := config }, {}⟩ ops) :
    let s := Session.run samples ⟨{ config := config }, {}⟩ ops
    (∀ r ∈ s.account.returned, r.Contiguous s.account.chunks) ∧
      s.account.returned.Pairwise fun r r' => r.stop ≤ r'.ended :=
  have hsound := (sound_initial config).run hfresh
  ⟨hsound.contiguous, hsound.ordered⟩

section Runs

/-- Chunks of a tenth of a second, by their number. -/
def tenth (_ : Nat) : Nat := 1600

def session : Session Nat := ⟨{ config := {} }, {}⟩

/-- Chunks from `first` on, all with one probability. -/
def chunkOps (prob : Rat) (first count : Nat) : List (Op Nat) :=
  (List.range' first count).map fun chunk => .processChunk chunk prob

def utterances (ops : List (Op Nat)) : List (List Nat) :=
  (session.run tenth ops).account.returned.map (·.audio)

instance (s : Session Nat) : (op : Op Nat) → Decidable (s.Fresh op)
  | .processChunk audio prob => inferInstanceAs (Decidable (IsOnset s.vad prob →
      (s.vad.pushLookback audio).length ≤ s.vad.config.lookbackChunks ∧
      s.account.ended + (s.vad.pushLookback audio).length ≤ s.account.chunks.length + 1 ∧
      s.account.cleared + (s.vad.pushLookback audio).length ≤ s.account.chunks.length + 1))
  | .flush => inferInstanceAs (Decidable True)
  | .clear => inferInstanceAs (Decidable True)
  | .forceEndpoint => inferInstanceAs (Decidable True)
  | .setLookbackChunks _ => inferInstanceAs (Decidable True)

instance decidableAllFresh : (s : Session Nat) → (ops : List (Op Nat)) →
    Decidable (s.AllFresh tenth ops)
  | _, [] => inferInstanceAs (Decidable True)
  | s, op :: ops =>
    have := decidableAllFresh (s.next tenth op) ops
    inferInstanceAs (Decidable (s.Fresh op ∧ (s.next tenth op).AllFresh tenth ops))

/-- Speech, a silence of the given length and speech again. -/
def speechTwice (silent : Nat) : List (Op Nat) :=
  chunkOps (9 / 10) 0 5 ++ chunkOps (1 / 10) 5 silent ++ chunkOps (9 / 10) (5 + silent) 5 ++
    [.flush]

/-- Two utterances with a silent chunk between them that is in neither. -/
theorem two_utterances :
    utterances (speechTwice 7) = [List.range' 0 9, List.range' 10 7] ∧
      (let s := Session.run tenth session (speechTwice 7)
      (∀ r ∈ s.account.returned, r.Contiguous s.account.chunks) ∧
        s.account.returned.Pairwise fun r r' => r.stop ≤ r'.ended) :=
  ⟨by decide +kernel, returned_contiguous tenth {} (speechTwice 7) (by decide +kernel)⟩

/-- Speech right after an utterance, after a clear, and after the lookback is made shorter. -/
theorem chunks_returned_again :
    utterances (speechTwice 4) = [[0, 1, 2, 3, 4, 5, 6, 7, 8], [7, 8, 9, 10, 11, 12, 13]] ∧
      utterances (chunkOps (9 / 10) 0 5 ++ [.clear] ++ chunkOps (9 / 10) 5 5 ++ [.flush]) =
        [[3, 4, 5, 6, 7, 8, 9]] ∧
      utterances (chunkOps (1 / 10) 0 5 ++ [.setLookbackChunks 1] ++ chunkOps (9 / 10) 5 5 ++
        [.flush]) = [[3, 4, 5, 6, 7, 8, 9]] := by
  decide +kernel

end Runs

end Dalston.Realtime.Vad
