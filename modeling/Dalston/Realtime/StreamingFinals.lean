import Dalston.Foundation.Actions
import Dalston.Realtime.Timeline

/-!
# The finals of a streaming session

The decode loop collects the words that the streaming decoder yields, and the message
handler sends them in a final: at an endpoint of the detector, at a flush and at the
end. The handler waits in the send before it empties the collection. At the end it
also transcribes the speech that the detector still holds.

## Implementation notes

The timeline of `TimelineSession` is extended by the points at which the handler can
wait. The words of a decoder result that the loop has received are recorded, and those
in the collection are taken from the record when a clear discards them.
-/

namespace Dalston.Realtime

open Foundation

/-- What the handler goes on with after a final. -/
inductive AfterFinal
  | receiving
  /-- The rest of a flush, with the duration of the audio in the buffer. -/
  | flushing (remaining : Rat)
  | closing

/-- Where the message handler stands. -/
inductive DecodePoint
  | receiving
  /-- It sends the end of an utterance. -/
  | endpoint
  /-- It sends a final. -/
  | sending (next : AfterFinal)
  | leaving
  | closing
  | transcribing (audio : List Chunk)
  | returned

structure DecodeSession where
  timeline : TimelineSession
  handler : DecodePoint
  /-- The chunks that wait for the decoder, and those it has taken. -/
  fed : List Chunk
  taken : List Chunk
  results : List Transcript
  threadEnded : Bool
  loopEnded : Bool
  spoken : List Word

namespace DecodeSession

def start (vad : Option Vad.VADConfig) : DecodeSession where
  timeline := .fresh vad
  handler := .receiving
  fed := []
  taken := []
  results := []
  threadEnded := false
  loopEnded := false
  spoken := []

def finish (next : AfterFinal) (s : DecodeSession) : DecodeSession :=
  match next with
  | .receiving => { s with handler := .receiving }
  | .flushing remaining =>
      { s with
        handler := .receiving
        timeline := { s.timeline with
          vad := s.timeline.vad.map (·.flush.1)
          position := s.timeline.position + remaining } }
  | .closing => { s with handler := .closing }

/-- A final of the collected words up to its send. -/
def beginFinal (next : AfterFinal) (s : DecodeSession) : DecodeSession :=
  if s.timeline.textParts.isEmpty then s.finish next
  else
    { s with
      handler := .sending next
      timeline := s.timeline.addEntry (.streamed s.timeline.words)
        (streamingTranscript s.timeline.textParts s.timeline.words)
        (lastEnd s.timeline.words) }

/-- The send has returned, and the collection is emptied. -/
def finalSent (next : AfterFinal) (s : DecodeSession) : DecodeSession :=
  finish next { s with timeline := { s.timeline with textParts := [], words := [] } }

/-- The next chunk goes to the decoder and to the detector. -/
def processChunk (config : TimelineConfig) (isSpeech : Bool) (s : DecodeSession) :
    DecodeSession :=
  let chunk : Chunk := ⟨s.timeline.position, config.chunkSeconds⟩
  let timeline := { s.timeline with position := s.timeline.position + config.chunkSeconds }
  let s := { s with timeline, fed := s.fed ++ [chunk] }
  match timeline.vad with
  | none => s
  | some vad =>
      let result := vad.advance chunk (config.detectorDuration chunk) isSpeech
      { s with
        timeline := { timeline with vad := some result.1 }
        handler :=
          match result.2.event with
          | some .speechEnd => .endpoint
          | _ => .receiving }

def clear (remaining : Rat) (s : DecodeSession) : DecodeSession :=
  { s with
    timeline := s.timeline.clear remaining
    spoken := s.spoken.take (s.spoken.length - s.timeline.words.length) }

def receiveResult (result : Transcript) (rest : List Transcript) (s : DecodeSession) :
    DecodeSession :=
  { s with
    results := rest
    timeline := s.timeline.decoded result
    spoken := s.spoken ++ extractWords result }

/-- The last part of the session takes the speech out of the detector. -/
def endSession (s : DecodeSession) : DecodeSession :=
  match s.timeline.vad with
  | none => { s with handler := .returned }
  | some vad =>
      let audio := vad.flush.2.getD []
      { s with
        timeline := { s.timeline with vad := some vad.flush.1 }
        handler := if audio.isEmpty then .returned else .transcribing audio }

def transcribed (audio : List Chunk) (reply : Option Transcript) (s : DecodeSession) :
    DecodeSession :=
  { s with timeline := s.timeline.transcribeAndSend audio reply, handler := .returned }

end DecodeSession

inductive DecodeAction
  | chunk (isSpeech : Bool)
  | endpointSent
  | flush (remaining : Rat)
  | clear (remaining : Rat)
  | update (config : Vad.VADConfig)
  | finalSent
  | leave
  | join
  | endSession
  | transcribed (reply : Option Transcript)
  | takeChunk
  | yieldResult (result : Transcript)
  | endThread
  | receiveResult
  | endLoop

/-- A step of the handler, the decoder thread or the decode loop. -/
inductive DecodeStep (config : TimelineConfig) :
    DecodeSession → DecodeAction → DecodeSession → Prop
  | chunk {s : DecodeSession} (isSpeech : Bool) :
      s.handler = .receiving →
      DecodeStep config s (.chunk isSpeech) (s.processChunk config isSpeech)
  | endpointSent {s : DecodeSession} :
      s.handler = .endpoint → DecodeStep config s .endpointSent (s.beginFinal .receiving)
  | flush {s : DecodeSession} (remaining : Rat) :
      s.handler = .receiving →
      DecodeStep config s (.flush remaining) (s.beginFinal (.flushing remaining))
  | clear {s : DecodeSession} (remaining : Rat) :
      s.handler = .receiving → DecodeStep config s (.clear remaining) (s.clear remaining)
  | update {s : DecodeSession} (vadConfig : Vad.VADConfig) :
      s.handler = .receiving →
      DecodeStep config s (.update vadConfig)
        { s with timeline := s.timeline.update vadConfig }
  | finalSent {s : DecodeSession} {next : AfterFinal} :
      s.handler = .sending next → DecodeStep config s .finalSent (s.finalSent next)
  /-- An end message, the end of the connection or an exception. -/
  | leave {s : DecodeSession} :
      s.handler = .receiving → DecodeStep config s .leave { s with handler := .leaving }
  /-- The decode loop has ended, or the timeout has passed and it is cancelled. -/
  | join {s : DecodeSession} :
      s.handler = .leaving →
      DecodeStep config s .join (DecodeSession.beginFinal .closing { s with loopEnded := true })
  | endSession {s : DecodeSession} :
      s.handler = .closing → DecodeStep config s .endSession s.endSession
  | transcribed {s : DecodeSession} {audio : List Chunk} (reply : Option Transcript) :
      s.handler = .transcribing audio →
      DecodeStep config s (.transcribed reply) (s.transcribed audio reply)
  | takeChunk {s : DecodeSession} {chunk : Chunk} {rest : List Chunk} :
      s.threadEnded = false → s.fed = chunk :: rest →
      DecodeStep config s .takeChunk { s with fed := rest, taken := s.taken ++ [chunk] }
  | yieldResult {s : DecodeSession} (result : Transcript) :
      s.threadEnded = false →
      DecodeStep config s (.yieldResult result) { s with results := s.results ++ [result] }
  | endThread {s : DecodeSession} :
      s.threadEnded = false → DecodeStep config s .endThread { s with threadEnded := true }
  | receiveResult {s : DecodeSession} {result : Transcript} {rest : List Transcript} :
      s.loopEnded = false → s.results = result :: rest →
      DecodeStep config s .receiveResult (s.receiveResult result rest)
  | endLoop {s : DecodeSession} :
      s.threadEnded = true → s.results = [] →
      DecodeStep config s .endLoop { s with loopEnded := true }

abbrev DecodeRun (config : TimelineConfig) (ok : DecodeSession → DecodeAction → Prop) :
    DecodeSession → DecodeSession → Prop :=
  ActionRun (DecodeStep config) ok

namespace DecodeSession

/-- The words of the finals that were sent. -/
def finalWords (s : DecodeSession) : List String :=
  (s.timeline.assembler.segments.flatMap (·.words)).map (·.word)

/-- The decoder's words without the cleared ones, received by the loop or not. -/
def decoderWords (s : DecodeSession) : List String :=
  (s.spoken ++ s.results.flatMap extractWords).map (·.word)

/-- Every word is in one final, and nothing the decoder has heard is transcribed again. -/
structure Delivered (s : DecodeSession) : Prop where
  complete : s.handler = .returned → s.finalWords = s.decoderWords
  notTwice : ∀ audio transcript, Entry.piece audio transcript ∈ s.timeline.entries →
    ∀ chunk ∈ audio, chunk ∉ s.taken

end DecodeSession

/-- The loop receives words only while no final is being sent, every result with words has a
text, the loop is not cancelled, and no text comes of the speech that the detector holds at
the end. -/
def Orderly (s : DecodeSession) : DecodeAction → Prop
  | .receiveResult => ∀ result ∈ s.results.head?, extractWords result ≠ [] →
      result.text ≠ "" ∧ ∀ next, s.handler ≠ .sending next
  | .join => s.loopEnded = true
  | .transcribed reply => ∀ transcript ∈ reply, transcript.text = ""
  | _ => True

section Words

theorem map_word_shift (offset : Rat) (words : List Word) :
    (words.map (Word.shift offset)).map (·.word) = words.map (·.word) := by
  rw [List.map_map]
  rfl

/-- A final has the words that were collected. -/
theorem place_words (assembler : TranscriptAssembler) (parts : List String)
    (words : List Word) (duration : Rat) :
    (assembler.place (streamingTranscript parts words) duration).words.map (·.word) =
      words.map (·.word) := by
  rw [TranscriptAssembler.place, extractWords_streamingTranscript]
  exact map_word_shift _ _

end Words

namespace DecodeSession

variable {config : TimelineConfig} {s s' : DecodeSession}

/-- The collected words that no final has been built from yet. -/
def collected (s : DecodeSession) : List Word :=
  match s.handler with
  | .sending _ => []
  | _ => s.timeline.words

/-- The handler is on its way out, with the decode loop ended. -/
def Closing (s : DecodeSession) : Prop :=
  s.handler = .closing ∨ s.handler = .returned ∨ ∃ audio, s.handler = .transcribing audio

/-- The invariant of an orderly session. -/
structure Kept (s : DecodeSession) : Prop where
  words : s.spoken.map (·.word) = s.finalWords ++ s.collected.map (·.word)
  parts : s.timeline.textParts = [] → s.timeline.words = []
  streamed : ∀ entry ∈ s.timeline.entries, ∃ words, entry = .streamed words
  ended : s.loopEnded = true → s.results = [] ∧ s.threadEnded = true
  sending : s.handler = .sending .closing → s.loopEnded = true
  closing : s.Closing → s.loopEnded = true ∧ s.timeline.words = []

namespace Kept

theorem start (vad : Option Vad.VADConfig) : (DecodeSession.start vad).Kept where
  words := rfl
  parts := fun _ => rfl
  streamed := by
    intro entry h
    cases h
  ended := by
    intro h
    cases h
  sending := by
    intro h
    cases h
  closing := by
    rintro (h | h | ⟨_, h⟩) <;> cases h

theorem delivered (h : s.Kept) : s.Delivered where
  complete := by
    intro hreturned
    obtain ⟨hloop, hwords⟩ := h.closing (Or.inr (Or.inl hreturned))
    have hspoken := h.words
    rw [collected, hreturned, hwords] at hspoken
    rw [decoderWords, (h.ended hloop).1, List.flatMap_nil, List.append_nil, hspoken,
      List.map_nil, List.append_nil]
  notTwice := by
    intro audio transcript hentry
    obtain ⟨words, hwords⟩ := h.streamed _ hentry
    cases hwords

/-- The handler goes on after a final that was sent or not needed. -/
theorem finish {next : AfterFinal}
    (hwords : s.spoken.map (·.word) = s.finalWords ++ s.timeline.words.map (·.word))
    (hparts : s.timeline.textParts = [] → s.timeline.words = [])
    (hstreamed : ∀ entry ∈ s.timeline.entries, ∃ words, entry = .streamed words)
    (hended : s.loopEnded = true → s.results = [] ∧ s.threadEnded = true)
    (hclosing : next = .closing → s.loopEnded = true ∧ s.timeline.words = []) :
    (s.finish next).Kept := by
  cases next with
  | receiving =>
      exact ⟨hwords, hparts, hstreamed, hended, (fun h => nomatch h), by
        rintro (h | h | ⟨_, h⟩) <;> cases h⟩
  | flushing remaining =>
      exact ⟨hwords, hparts, hstreamed, hended, (fun h => nomatch h), by
        rintro (h | h | ⟨_, h⟩) <;> cases h⟩
  | closing =>
      exact ⟨hwords, hparts, hstreamed, hended, (fun h => nomatch h), fun _ => hclosing rfl⟩

/-- A final takes over all the words that were collected. -/
theorem beginFinal (h : s.Kept) {next : AfterFinal}
    (hhandler : s.collected = s.timeline.words)
    (hclosing : next = .closing → s.loopEnded = true) : (s.beginFinal next).Kept := by
  have hwords := h.words
  rw [hhandler] at hwords
  unfold DecodeSession.beginFinal
  split
  case isTrue hempty =>
    have hnone := h.parts (List.isEmpty_iff.mp hempty)
    exact finish hwords h.parts h.streamed h.ended fun hnext => ⟨hclosing hnext, hnone⟩
  case isFalse hsome =>
    constructor
    case words =>
      simp only [finalWords, collected, TimelineSession.addEntry,
        TranscriptAssembler.addTranscript, List.flatMap_append, List.flatMap_cons,
        List.flatMap_nil, List.append_nil, List.map_append, List.map_nil, place_words]
      exact hwords.trans (by rw [finalWords])
    case parts => exact h.parts
    case streamed =>
      intro entry hentry
      rcases List.mem_append.mp hentry with hold | hnew
      · exact h.streamed entry hold
      · exact ⟨_, List.mem_singleton.mp hnew⟩
    case ended => exact h.ended
    case sending =>
      intro hsending
      injection hsending with hnext
      exact hclosing hnext
    case closing =>
      rintro (hpoint | hpoint | ⟨_, hpoint⟩) <;> cases hpoint

/-- Once the final is sent, the collection holds nothing that is not in it. -/
theorem finalSent (h : s.Kept) {next : AfterFinal} (hhandler : s.handler = .sending next) :
    (s.finalSent next).Kept := by
  have hwords := h.words
  rw [collected, hhandler] at hwords
  refine finish hwords (fun _ => rfl) h.streamed h.ended ?_
  rintro rfl
  exact ⟨h.sending hhandler, rfl⟩

/-- What the handler does outside a final leaves the collection as it is. -/
theorem withHandler (h : s.Kept) (hhandler : s.collected = s.timeline.words)
    (handler : DecodePoint) (timeline : TimelineSession) (fed : List Chunk)
    (hsame : timeline.textParts = s.timeline.textParts ∧ timeline.words = s.timeline.words ∧
      timeline.entries = s.timeline.entries ∧ timeline.assembler = s.timeline.assembler)
    (hpoint : ∀ next, handler ≠ .sending next)
    (hclosing : ({ s with handler } : DecodeSession).Closing →
      s.loopEnded = true ∧ s.timeline.words = []) :
    ({ s with handler, timeline, fed } : DecodeSession).Kept := by
  obtain ⟨hparts, hwords, hentries, hassembler⟩ := hsame
  have hcollected : ({ s with handler, timeline, fed } : DecodeSession).collected =
      s.timeline.words := by
    cases handler with
    | sending next => exact absurd rfl (hpoint next)
    | receiving | endpoint | leaving | closing | transcribing | returned => exact hwords
  constructor
  case words =>
    rw [hcollected, ← hhandler]
    have hkept := h.words
    unfold finalWords at hkept ⊢
    rw [hassembler]
    exact hkept
  case parts =>
    intro hnone
    rw [hparts] at hnone
    exact hwords.trans (h.parts hnone)
  case streamed =>
    intro entry hentry
    rw [hentries] at hentry
    exact h.streamed entry hentry
  case ended => exact h.ended
  case sending => exact fun hsending => absurd hsending (hpoint _)
  case closing =>
    intro hend
    exact ⟨(hclosing hend).1, hwords.trans (hclosing hend).2⟩

theorem processChunk (h : s.Kept) (isSpeech : Bool) (hhandler : s.handler = .receiving) :
    (s.processChunk config isSpeech).Kept := by
  have hcollected : s.collected = s.timeline.words := by rw [collected, hhandler]
  unfold DecodeSession.processChunk
  simp only
  cases hvad : s.timeline.vad with
  | none =>
      refine h.withHandler hcollected s.handler _ _ ⟨rfl, rfl, rfl, rfl⟩ ?_ h.closing
      intro next hsending
      rw [hhandler] at hsending
      cases hsending
  | some vad =>
      apply h.withHandler hcollected
      case hsame => exact ⟨rfl, rfl, rfl, rfl⟩
      case hpoint => intro next; split <;> simp
      case hclosing =>
        rintro (hpoint | hpoint | ⟨_, hpoint⟩) <;> revert hpoint <;> split <;> simp

/-- A clear takes the collected words out of the collection and of the record. -/
theorem clear (h : s.Kept) (remaining : Rat) (hhandler : s.handler = .receiving) :
    (s.clear remaining).Kept := by
  have hwords := h.words
  rw [collected, hhandler] at hwords
  have hnot : ¬ s.Closing := by
    rintro (hpoint | hpoint | ⟨_, hpoint⟩) <;> rw [hhandler] at hpoint <;> cases hpoint
  constructor
  case words =>
    have hcollected : (s.clear remaining).collected = [] := by
      simp [collected, DecodeSession.clear, hhandler, TimelineSession.clear]
    have hlength := congrArg List.length hwords
    simp only [List.length_append, List.length_map] at hlength
    rw [hcollected, List.map_nil, List.append_nil]
    have htake : (s.clear remaining).spoken.map (·.word) = s.finalWords := by
      simp only [DecodeSession.clear, List.map_take, hwords]
      apply List.take_left'
      omega
    exact htake
  case parts => exact fun _ => rfl
  case streamed => exact h.streamed
  case ended => exact h.ended
  case sending => exact h.sending
  case closing => exact fun hpoint => absurd hpoint hnot

/-- The loop receives a result while nothing is being sent, or one without words. -/
theorem receiveResult (h : s.Kept) {result : Transcript} {rest : List Transcript}
    (hloop : s.loopEnded = false)
    (horderly : extractWords result ≠ [] → result.text ≠ "" ∧ ∀ next, s.handler ≠ .sending next) :
    (s.receiveResult result rest).Kept := by
  have hopen : s.loopEnded = true → False := fun hended =>
    absurd (hloop.symm.trans hended) Bool.noConfusion
  have hnot : ¬ s.Closing := fun hclosing => hopen (h.closing hclosing).1
  by_cases hwords : extractWords result = []
  · have hsame : s.timeline.decoded result = s.timeline := by
      simp [TimelineSession.decoded, hwords]
    have hresult : s.receiveResult result rest = { s with results := rest } := by
      simp [DecodeSession.receiveResult, hsame, hwords]
    rw [hresult]
    exact ⟨h.words, h.parts, h.streamed, fun hended => absurd hended hopen, h.sending, h.closing⟩
  · obtain ⟨htext, hpoint⟩ := horderly hwords
    have hdecoded : s.timeline.decoded result =
        { s.timeline with
            textParts := s.timeline.textParts ++ [result.text]
            words := s.timeline.words ++ extractWords result } := by
      simp [TimelineSession.decoded, hwords, htext]
    constructor
    case words =>
      have hcollected : s.collected = s.timeline.words := by
        unfold collected
        split
        case h_1 next hsending => exact absurd hsending (hpoint next)
        case h_2 => rfl
      have hnext : (s.receiveResult result rest).collected =
          s.timeline.words ++ extractWords result := by
        unfold collected
        split
        case h_1 next hsending => exact absurd hsending (hpoint next)
        case h_2 => exact congrArg TimelineSession.words hdecoded
      have hkept := h.words
      rw [hcollected] at hkept
      rw [hnext]
      simp only [DecodeSession.receiveResult, finalWords, hdecoded, List.map_append]
      rw [hkept, finalWords, List.append_assoc]
    case parts =>
      intro hnone
      rw [DecodeSession.receiveResult, hdecoded] at hnone
      simp at hnone
    case streamed =>
      rw [DecodeSession.receiveResult, hdecoded]
      exact h.streamed
    case ended => exact fun hended => absurd hended hopen
    case sending => exact h.sending
    case closing => exact fun hclosing => absurd hclosing hnot

theorem endSession (h : s.Kept) (hhandler : s.handler = .closing) : s.endSession.Kept := by
  have hcollected : s.collected = s.timeline.words := by rw [collected, hhandler]
  have hclosing := h.closing (Or.inl hhandler)
  unfold DecodeSession.endSession
  split
  · exact h.withHandler hcollected .returned s.timeline s.fed ⟨rfl, rfl, rfl, rfl⟩ (by simp)
      fun _ => hclosing
  · apply h.withHandler hcollected _ _ s.fed
    case hsame => exact ⟨rfl, rfl, rfl, rfl⟩
    case hpoint =>
      intro next
      split <;> simp
    case hclosing => exact fun _ => hclosing

/-- Every step of an orderly session keeps the invariant. -/
theorem step (h : s.Kept) {action : DecodeAction} (hstep : DecodeStep config s action s')
    (hok : Orderly s action) : s'.Kept := by
  cases hstep with
  | chunk isSpeech hhandler => exact h.processChunk isSpeech hhandler
  | endpointSent hhandler =>
      apply h.beginFinal
      case hhandler => rw [collected, hhandler]
      case hclosing => exact fun hnext => by cases hnext
  | flush remaining hhandler =>
      apply h.beginFinal
      case hhandler => rw [collected, hhandler]
      case hclosing => exact fun hnext => by cases hnext
  | clear remaining hhandler => exact h.clear remaining hhandler
  | update vadConfig hhandler =>
      refine h.withHandler ?_ s.handler _ s.fed ⟨rfl, rfl, rfl, rfl⟩ ?_ h.closing
      · rw [collected, hhandler]
      · intro next hsending
        rw [hhandler] at hsending
        cases hsending
  | finalSent hhandler => exact h.finalSent hhandler
  | leave hhandler =>
      refine h.withHandler ?_ .leaving s.timeline s.fed ⟨rfl, rfl, rfl, rfl⟩ (by simp) ?_
      · rw [collected, hhandler]
      · rintro (hpoint | hpoint | ⟨_, hpoint⟩) <;> cases hpoint
  | join hhandler =>
      have hloop : s.loopEnded = true := hok
      have hsame : ({ s with loopEnded := true } : DecodeSession) = s := by rw [← hloop]
      rw [hsame]
      apply h.beginFinal
      case hhandler => rw [collected, hhandler]
      case hclosing => exact fun _ => hloop
  | endSession hhandler => exact h.endSession hhandler
  | transcribed reply hhandler =>
      have hclosing := h.closing (Or.inr (Or.inr ⟨_, hhandler⟩))
      have hsilent : ∀ audio, s.timeline.transcribeAndSend audio reply = s.timeline := by
        intro audio
        cases reply with
        | none => rfl
        | some transcript => exact if_pos (hok transcript rfl)
      rw [DecodeSession.transcribed, hsilent]
      refine h.withHandler ?_ .returned s.timeline s.fed ⟨rfl, rfl, rfl, rfl⟩ (by simp)
        fun _ => hclosing
      rw [collected, hhandler]
  | takeChunk hthread hfed => exact ⟨h.words, h.parts, h.streamed, h.ended, h.sending, h.closing⟩
  | yieldResult result hthread =>
      refine ⟨h.words, h.parts, h.streamed, fun hended => ?_, h.sending, h.closing⟩
      exact absurd (hthread.symm.trans (h.ended hended).2) Bool.noConfusion
  | endThread hthread =>
      exact ⟨h.words, h.parts, h.streamed, fun hended => ⟨(h.ended hended).1, rfl⟩, h.sending,
        h.closing⟩
  | receiveResult hloop hresults =>
      exact h.receiveResult hloop (hok _ (by rw [hresults]; rfl))
  | endLoop hthread hresults =>
      refine ⟨h.words, h.parts, h.streamed, fun _ => ⟨hresults, hthread⟩, fun _ => rfl, ?_⟩
      exact fun hclosing => ⟨rfl, (h.closing hclosing).2⟩

end Kept

end DecodeSession

/-- In an orderly session every word of the decoder that no clear discards is in exactly one
final, in the decoder's order, and no audio is transcribed again at the end. -/
theorem delivered_of_orderly (config : TimelineConfig) {vad : Option Vad.VADConfig}
    {s : DecodeSession} (hrun : DecodeRun config Orderly (.start vad) s) : s.Delivered :=
  (hrun.invariant (DecodeSession.Kept.start vad) fun _ _ _ h hstep hok => h.step hstep hok).delivered

section Samples

def streamingConfig : TimelineConfig where
  chunkSeconds := 1 / 10
  channels := 1
  streaming := true
  maxUtteranceDuration := 60
  chunkSeconds_pos := by decide +kernel

def streamingVad : Vad.VADConfig where
  minSpeechDuration := 1 / 4
  minSilenceDuration := 1 / 2
  lookbackChunks := 3

/-- The result of a decoder for one word. -/
def decodedWord (text : String) : Transcript where
  text := text
  segments := [{ words := some [⟨text, 0, 1, none⟩], confidence := none }]
  languageConfidence := none

/-- A word is received and flushed. -/
def flushing : DecodeSession :=
  DecodeSession.beginFinal (.flushing 0)
    { DecodeSession.start (some streamingVad) with
      timeline := (TimelineSession.fresh (some streamingVad)).decoded (decodedWord "hello")
      spoken := extractWords (decodedWord "hello") }

/-- The session is closed once the final is sent. -/
def closed (s : DecodeSession) : DecodeSession :=
  DecodeSession.endSession <| DecodeSession.beginFinal .closing
    { s.finalSent (.flushing 0) with handler := .leaving, threadEnded := true, loopEnded := true }

/-- One word, flushed and delivered. -/
theorem delivered_flush : (closed flushing).Delivered :=
  delivered_of_orderly streamingConfig <|
    .step (.step (.step (.step (.step (.step (.step (.step (.step
      (.refl (DecodeSession.start (some streamingVad)))
      (.yieldResult (decodedWord "hello") rfl) trivial)
      (.receiveResult rfl rfl) (by
        rintro result ⟨⟩ _
        exact ⟨by decide, fun _ hsending => nomatch hsending⟩))
      (.flush 0 rfl) trivial)
      (.finalSent rfl) trivial)
      (.endThread rfl) trivial)
      (.endLoop rfl rfl) trivial)
      (.leave rfl) trivial)
      (.join rfl) rfl)
      (.endSession rfl) trivial

/-- A second word is received while the final of the first is being sent. -/
def interrupted : DecodeSession := closed (flushing.receiveResult (decodedWord "world") [])

theorem interrupted_reached :
    DecodeRun streamingConfig (fun _ _ => True) (.start (some streamingVad)) interrupted :=
  .step (.step (.step (.step (.step (.step (.step (.step (.step (.step (.step
    (.refl (DecodeSession.start (some streamingVad)))
    (.yieldResult (decodedWord "hello") rfl) trivial)
    (.receiveResult rfl rfl) trivial)
    (.flush 0 rfl) trivial)
    (.yieldResult (decodedWord "world") rfl) trivial)
    (.receiveResult rfl rfl) trivial)
    (.finalSent rfl) trivial)
    (.endThread rfl) trivial)
    (.endLoop rfl rfl) trivial)
    (.leave rfl) trivial)
    (.join rfl) trivial)
    (.endSession rfl) trivial

/-- The second word is in no final. -/
theorem word_lost :
    ¬ ∀ (config : TimelineConfig) (vad : Option Vad.VADConfig) (s : DecodeSession),
      DecodeRun config (fun _ _ => True) (.start vad) s → s.Delivered := by
  intro h
  have hcomplete := (h streamingConfig (some streamingVad) interrupted
    interrupted_reached).complete rfl
  revert hcomplete
  decide +kernel

end Samples

end Dalston.Realtime
