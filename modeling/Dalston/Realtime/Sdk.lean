import Dalston.Realtime.Protocol

/-!
# The realtime messages of the Python SDK

The SDK turns the object of a server message into a typed message. The payload
types do not check their fields, which therefore hold any decoded value.

## Implementation notes

How Python formats a decoded value in a string is an argument.
-/

namespace Dalston.Realtime.Sdk

open Foundation Model

inductive RealtimeMessageType
  | sessionBegin
  | sessionEnd
  | transcriptPartial
  | transcriptFinal
  | vadSpeechStart
  | vadSpeechEnd
  | flush
  | end
  | error
  deriving DecidableEq

def RealtimeMessageType.value : RealtimeMessageType → String
  | sessionBegin => "session.begin"
  | sessionEnd => "session.end"
  | transcriptPartial => "transcript.partial"
  | transcriptFinal => "transcript.final"
  | vadSpeechStart => "vad.speech_start"
  | vadSpeechEnd => "vad.speech_end"
  | flush => "flush"
  | .end => "end"
  | error => "error"

structure Word where
  text : Json
  start : Json
  «end» : Json
  confidence : Json
  speakerId : Json

structure SessionBegin where
  sessionId : Json
  model : Json
  language : Json
  sampleRate : Json
  encoding : Json

structure SessionEnd where
  sessionId : Json
  totalAudioSeconds : Json
  totalBilledSeconds : Json

structure TranscriptPartial where
  text : Json
  start : Json
  «end» : Json
  isFinal : Bool

structure TranscriptFinal where
  text : Json
  start : Json
  «end» : Json
  words : Option (List Word)
  confidence : Json
  speakerId : Json

structure VADEvent where
  type : String
  timestamp : Json

structure RealtimeError where
  code : Json
  message : Json
  details : Json

inductive RealtimeData
  | sessionBegin (data : SessionBegin)
  | sessionEnd (data : SessionEnd)
  | transcriptPartial (data : TranscriptPartial)
  | transcriptFinal (data : TranscriptFinal)
  | vadEvent (data : VADEvent)
  | error (data : RealtimeError)

structure RealtimeMessage where
  type : RealtimeMessageType
  data : RealtimeData

inductive ParseError
  | keyError (key : String)
  | typeError

/-- `data[key]`. -/
def item (data : Config) (key : String) : Except ParseError Json :=
  match data.get? key with
  | some value => .ok value
  | none => .error (.keyError key)

def parseWord : Json → Except ParseError Word
  | .obj w => do
      let text ← item w "text"
      let start ← item w "start"
      let stop ← item w "end"
      return ⟨text, start, stop, Dict.getD w "confidence" .null, Dict.getD w "speaker_id" .null⟩
  | _ => .error .typeError

def parseWords (data : Config) : Except ParseError (Option (List Word)) :=
  if flag data "words" then
    match data.getD "words" .null with
    | .arr words => some <$> words.mapM parseWord
    | _ => .error .typeError
  else .ok none

def parseSessionBegin (data : Config) : Except ParseError SessionBegin := do
  let sessionId ← item data "session_id"
  return {
    sessionId
    model := data.getD "model" (.str "")
    language := data.getD "language" (.str "auto")
    sampleRate := data.getD "sample_rate" (.num 16000)
    encoding := data.getD "encoding" (.str "pcm_s16le") }

def parseSessionEnd (data : Config) : Except ParseError SessionEnd := do
  let sessionId ← item data "session_id"
  return {
    sessionId
    totalAudioSeconds := data.getD "total_duration" (data.getD "total_audio_seconds" (.num 0))
    totalBilledSeconds := data.getD "total_billed_seconds" .null }

def parsePartial (data : Config) : TranscriptPartial where
  text := data.getD "text" (.str "")
  start := data.getD "start" (.num 0)
  «end» := data.getD "end" (.num 0)
  isFinal := false

def parseFinal (data : Config) : Except ParseError TranscriptFinal := do
  let words ← parseWords data
  return {
    text := data.getD "text" (.str "")
    start := data.getD "start" (.num 0)
    «end» := data.getD "end" (.num 0)
    words
    confidence := data.getD "confidence" .null
    speakerId := data.getD "speaker_id" .null }

def parseError (data : Config) : RealtimeError where
  code := data.getD "code" (.str "unknown")
  message := data.getD "message" (.str "Unknown error")
  details := data.getD "details" .null

/-- `_parse_message`. -/
def parseMessage (format : Json → String) (data : Config) : Except ParseError RealtimeMessage :=
  let msgType := data.getD "type" (.str "")
  if msgType.equalsText "session.begin" then do
    return ⟨.sessionBegin, .sessionBegin (← parseSessionBegin data)⟩
  else if msgType.equalsText "session.end" then do
    return ⟨.sessionEnd, .sessionEnd (← parseSessionEnd data)⟩
  else if msgType.equalsText "transcript.partial" then
    .ok ⟨.transcriptPartial, .transcriptPartial (parsePartial data)⟩
  else if msgType.equalsText "transcript.final" then do
    return ⟨.transcriptFinal, .transcriptFinal (← parseFinal data)⟩
  else if msgType.equalsText "vad.speech_start" then
    .ok ⟨.vadSpeechStart, .vadEvent ⟨"speech_start", data.getD "timestamp" (.num 0)⟩⟩
  else if msgType.equalsText "vad.speech_end" then
    .ok ⟨.vadSpeechEnd, .vadEvent ⟨"speech_end", data.getD "timestamp" (.num 0)⟩⟩
  else if msgType.equalsText "error" then .ok ⟨.error, .error (parseError data)⟩
  else
    .ok ⟨.error, .error ⟨.str "unknown_message",
      .str ("Unknown message type: " ++ format msgType), .obj data⟩⟩

section Fields

/-- The text, the times and the confidence of a word. -/
def spoken (text start stop confidence : Json) : Json :=
  .obj [("text", text), ("start", start), ("end", stop), ("confidence", confidence)]

/-- The fields of a payload by name; no words and an empty list of words are the same. -/
def RealtimeData.fields : RealtimeData → Config
  | sessionBegin d =>
      [("session_id", d.sessionId), ("model", d.model), ("language", d.language),
        ("sample_rate", d.sampleRate), ("encoding", d.encoding)]
  | sessionEnd d =>
      [("session_id", d.sessionId), ("total_audio_seconds", d.totalAudioSeconds),
        ("total_billed_seconds", d.totalBilledSeconds)]
  | transcriptPartial d =>
      [("text", d.text), ("start", d.start), ("end", d.end), ("is_final", .bool d.isFinal)]
  | transcriptFinal d =>
      [("text", d.text), ("start", d.start), ("end", d.end),
        ("words", .arr ((d.words.getD []).map fun w =>
          spoken w.text w.start w.end w.confidence)),
        ("confidence", d.confidence), ("speaker_id", d.speakerId)]
  | vadEvent d => [("type", .str d.type), ("timestamp", d.timestamp)]
  | error d => [("code", d.code), ("message", d.message), ("details", d.details)]

/-- The field values of a server message under the names that the SDK has for them. -/
def sentFields : ServerMessage → Config
  | .sessionBegin m =>
      [("session_id", .str m.sessionId)] ++ m.config.toDict ++
        Dict.optional "resumed_from" (m.resumedFrom.map .str)
  | .transcriptFinal m =>
      [("text", .str m.text), ("start", .num m.start), ("end", .num m.end),
        ("words", .arr ((m.words.getD []).map fun w =>
          spoken (.str w.word) (.num w.start) (.num w.end) (.num w.confidence))),
        ("confidence", .num m.confidence)]
  | message => message.body

/-- The parsed message is of the server's kind, and the fields that the server and the SDK
both have agree. -/
structure Conveys (message : ServerMessage) (parsed : RealtimeMessage) : Prop where
  kind : parsed.type.value = message.type
  values : ∀ kv ∈ sentFields message, ∀ value, parsed.data.fields.get? kv.1 = some value →
    value = kv.2

/-- The parsed message is of the server's kind and has every field of the server. -/
structure ConveysInFull (message : ServerMessage) (parsed : RealtimeMessage) : Prop where
  kind : parsed.type.value = message.type
  values : ∀ kv ∈ sentFields message, parsed.data.fields.get? kv.1 = some kv.2

end Fields

/-- The messages whose shared fields the SDK reads as they were sent. -/
def Readable : ServerMessage → Prop
  | .sessionBegin m => m.config.model = "" ∧ m.config.language = "auto" ∧
      m.config.sampleRate = 16000 ∧ m.config.encoding = "pcm_s16le"
  | .transcriptFinal m => m.words.getD [] = []
  | .processingLagWarning _ | .sessionTerminated _ => False
  | _ => True

/-- The messages of which the SDK keeps every field. -/
def ReadableInFull : ServerMessage → Prop
  | .transcriptPartial _ | .vadSpeechStart _ | .vadSpeechEnd _ => True
  | .transcriptFinal m => m.words.getD [] = []
  | _ => False

section Parsed

variable (format : Json → String)

theorem parse_sessionBegin (m : SessionBeginMessage) :
    parseMessage format (ServerMessage.sessionBegin m).toDict =
      .ok ⟨.sessionBegin, .sessionBegin
        ⟨.str m.sessionId, .str "", .str "auto", .num 16000, .str "pcm_s16le"⟩⟩ := by
  obtain ⟨sessionId, config, resumedFrom⟩ := m
  cases resumedFrom <;> rfl

theorem parse_sessionEnd (m : SessionEndMessage) :
    parseMessage format (ServerMessage.sessionEnd m).toDict =
      .ok ⟨.sessionEnd, .sessionEnd ⟨.str m.sessionId, .num m.totalAudioSeconds, .null⟩⟩ := by
  obtain ⟨sessionId, audio, speech, transcript, segments, audioUri, transcriptUri⟩ := m
  cases audioUri <;> cases transcriptUri <;> rfl

theorem parse_transcriptPartial (m : TranscriptPartialMessage) :
    parseMessage format (ServerMessage.transcriptPartial m).toDict =
      .ok ⟨.transcriptPartial, .transcriptPartial
        ⟨.str m.text, .num m.start, .num m.end, false⟩⟩ := rfl

theorem parse_transcriptFinal (m : TranscriptFinalMessage) (h : m.words.getD [] = []) :
    parseMessage format (ServerMessage.transcriptFinal m).toDict =
      .ok ⟨.transcriptFinal, .transcriptFinal
        ⟨.str m.text, .num m.start, .num m.end, none, .num m.confidence, .null⟩⟩ := by
  obtain ⟨text, start, stop, confidence, words⟩ := m
  cases words with
  | none => rfl
  | some words =>
      have hnil : words = [] := h
      subst hnil
      rfl

/-- A sent word has no text for the SDK. -/
theorem parse_transcriptFinal_words (m : TranscriptFinalMessage) {info : WordInfo}
    {rest : List WordInfo} (h : m.words = some (info :: rest)) :
    parseMessage format (ServerMessage.transcriptFinal m).toDict = .error (.keyError "text") := by
  obtain ⟨text, start, stop, confidence, words⟩ := m
  have hwords : words = some (info :: rest) := h
  subst hwords
  rfl

theorem parse_vadSpeechStart (timestamp : Rat) :
    parseMessage format (ServerMessage.vadSpeechStart timestamp).toDict =
      .ok ⟨.vadSpeechStart, .vadEvent ⟨"speech_start", .num timestamp⟩⟩ := rfl

theorem parse_vadSpeechEnd (timestamp : Rat) :
    parseMessage format (ServerMessage.vadSpeechEnd timestamp).toDict =
      .ok ⟨.vadSpeechEnd, .vadEvent ⟨"speech_end", .num timestamp⟩⟩ := rfl

theorem parse_error (m : ErrorMessage) :
    parseMessage format (ServerMessage.error m).toDict =
      .ok ⟨.error, .error ⟨.str m.code, .str m.message, .null⟩⟩ := rfl

/-- A message of any other type is reported as an error. -/
theorem parse_unknown {message : ServerMessage}
    (h : message.type = "warning" ∨ message.type = "session.terminated") :
    ∃ data, parseMessage format message.toDict = .ok ⟨.error, data⟩ := by
  cases message with
  | processingLagWarning m => exact ⟨_, rfl⟩
  | sessionTerminated m => exact ⟨_, rfl⟩
  | _ => exact absurd h (by simp [ServerMessage.type])

end Parsed

/-- The parser accepts the message, and what it returns satisfies the property. -/
def Reads (format : Json → String) (message : ServerMessage)
    (property : RealtimeMessage → Prop) : Prop :=
  ∃ parsed, parseMessage format message.toDict = .ok parsed ∧ property parsed

theorem reads_of_ok {format : Json → String} {message : ServerMessage} {parsed : RealtimeMessage}
    (h : parseMessage format message.toDict = .ok parsed) (property : RealtimeMessage → Prop) :
    Reads format message property ↔ property parsed := by
  constructor
  · rintro ⟨other, hother, hproperty⟩
    rw [h, Except.ok.injEq] at hother
    rwa [hother]
  · intro hproperty
    exact ⟨parsed, h, hproperty⟩

theorem not_reads_of_error {format : Json → String} {message : ServerMessage} {error : ParseError}
    (h : parseMessage format message.toDict = .error error) (property : RealtimeMessage → Prop) :
    ¬ Reads format message property := by
  rintro ⟨parsed, hparsed, _⟩
  rw [h] at hparsed
  cases hparsed

/-- A field that the SDK does not have agrees with any value. -/
theorem agrees_optional {fields : Config} {key : String} (h : fields.get? key = none)
    (value : Option Json) :
    ∀ kv ∈ Dict.optional key value, ∀ v, fields.get? kv.1 = some v → v = kv.2 := by
  intro kv hkv v hv
  obtain ⟨_, _, rfl⟩ := Dict.mem_optional.mp hkv
  rw [h] at hv
  cases hv

section Kinds

variable (format : Json → String)

theorem reads_sessionBegin (m : SessionBeginMessage) :
    (Reads format (.sessionBegin m) (Conveys (.sessionBegin m)) ↔ Readable (.sessionBegin m)) ∧
      ¬ Reads format (.sessionBegin m) (ConveysInFull (.sessionBegin m)) := by
  rw [reads_of_ok (parse_sessionBegin format m), reads_of_ok (parse_sessionBegin format m)]
  constructor
  · constructor
    · intro h
      have hvalues := h.values
      simp only [sentFields, SessionConfigInfo.toDict, RealtimeData.fields, Dict.get?_cons,
        List.forall_mem_append, List.forall_mem_cons] at hvalues
      obtain ⟨⟨_, hrate, hencoding, _, hlanguage, hmodel, _⟩, _⟩ := hvalues
      simp at hrate hencoding hlanguage hmodel
      exact ⟨hmodel, hlanguage.symm, by exact_mod_cast hrate.symm, hencoding.symm⟩
    · rintro ⟨hmodel, hlanguage, hrate, hencoding⟩
      constructor
      · rfl
      · unfold sentFields
        rw [List.forall_mem_append]
        constructor
        · simp [SessionConfigInfo.toDict, RealtimeData.fields, Dict.get?_cons, hmodel,
            hlanguage, hrate, hencoding]
        · exact agrees_optional rfl _
  · intro h
    have hchannels := h.values ("channels", .num m.config.channels)
      (by simp [sentFields, SessionConfigInfo.toDict])
    cases hchannels

theorem reads_sessionEnd (m : SessionEndMessage) :
    Reads format (.sessionEnd m) (Conveys (.sessionEnd m)) ∧
      ¬ Reads format (.sessionEnd m) (ConveysInFull (.sessionEnd m)) := by
  rw [reads_of_ok (parse_sessionEnd format m), reads_of_ok (parse_sessionEnd format m)]
  constructor
  · constructor
    · rfl
    · unfold sentFields ServerMessage.body
      rw [List.forall_mem_append, List.forall_mem_append]
      refine ⟨⟨?_, agrees_optional rfl _⟩, agrees_optional rfl _⟩
      intro kv hkv value hvalue
      simp only [List.mem_cons, List.not_mem_nil, or_false] at hkv
      rcases hkv with rfl | rfl | rfl | rfl | rfl
      · exact (Option.some.inj hvalue).symm
      · exact (Option.some.inj hvalue).symm
      -- the SDK has no place for the other fields
      all_goals cases hvalue
  · intro h
    have hspeech := h.values ("total_speech_duration", .num m.totalSpeechDuration)
      (by simp [sentFields, ServerMessage.body])
    cases hspeech

theorem reads_error (m : ErrorMessage) :
    Reads format (.error m) (Conveys (.error m)) ∧
      ¬ Reads format (.error m) (ConveysInFull (.error m)) := by
  rw [reads_of_ok (parse_error format m), reads_of_ok (parse_error format m)]
  constructor
  · constructor
    · rfl
    · simp [sentFields, ServerMessage.body, RealtimeData.fields, Dict.get?_cons]
  · intro h
    have hrecoverable := h.values ("recoverable", .bool m.recoverable)
      (by simp [sentFields, ServerMessage.body])
    cases hrecoverable

/-- A message read in full is read. -/
theorem ConveysInFull.conveys {message : ServerMessage} {parsed : RealtimeMessage}
    (h : ConveysInFull message parsed) : Conveys message parsed := by
  constructor
  · exact h.kind
  · intro kv hkv value hvalue
    rw [h.values kv hkv] at hvalue
    exact (Option.some.inj hvalue).symm

theorem readsInFull_transcriptPartial (m : TranscriptPartialMessage) :
    Reads format (.transcriptPartial m) (ConveysInFull (.transcriptPartial m)) := by
  rw [reads_of_ok (parse_transcriptPartial format m)]
  constructor
  · rfl
  · simp [sentFields, ServerMessage.body, RealtimeData.fields, Dict.get?_cons]

theorem readsInFull_vadSpeechStart (timestamp : Rat) :
    Reads format (.vadSpeechStart timestamp) (ConveysInFull (.vadSpeechStart timestamp)) := by
  rw [reads_of_ok (parse_vadSpeechStart format timestamp)]
  constructor
  · rfl
  · simp [sentFields, ServerMessage.body, RealtimeData.fields, Dict.get?_cons]

theorem readsInFull_vadSpeechEnd (timestamp : Rat) :
    Reads format (.vadSpeechEnd timestamp) (ConveysInFull (.vadSpeechEnd timestamp)) := by
  rw [reads_of_ok (parse_vadSpeechEnd format timestamp)]
  constructor
  · rfl
  · simp [sentFields, ServerMessage.body, RealtimeData.fields, Dict.get?_cons]

theorem readsInFull_transcriptFinal (m : TranscriptFinalMessage) (h : m.words.getD [] = []) :
    Reads format (.transcriptFinal m) (ConveysInFull (.transcriptFinal m)) := by
  rw [reads_of_ok (parse_transcriptFinal format m h)]
  constructor
  · rfl
  · simp [sentFields, RealtimeData.fields, Dict.get?_cons, h]

theorem not_reads_transcriptFinal (m : TranscriptFinalMessage) (h : m.words.getD [] ≠ [])
    (property : RealtimeMessage → Prop) : ¬ Reads format (.transcriptFinal m) property := by
  cases hwords : m.words with
  | none => simp [hwords] at h
  | some words =>
      cases words with
      | nil => simp [hwords] at h
      | cons info rest =>
          exact not_reads_of_error (parse_transcriptFinal_words format m hwords) property

/-- A message that the SDK does not know is never of the server's kind. -/
theorem not_reads_unknown {message : ServerMessage}
    (h : message.type = "warning" ∨ message.type = "session.terminated") :
    ¬ Reads format message (Conveys message) := by
  obtain ⟨data, hparse⟩ := parse_unknown format h
  rw [reads_of_ok hparse]
  intro hconveys
  have hkind : "error" = message.type := hconveys.kind
  rcases h with h | h <;> simp [h] at hkind

theorem Reads.conveys {message : ServerMessage}
    (h : Reads format message (ConveysInFull message)) :
    Reads format message (Conveys message) := by
  obtain ⟨parsed, hparsed, hfull⟩ := h
  exact ⟨parsed, hparsed, hfull.conveys⟩

end Kinds

/-- The SDK reads the shared fields of a server message exactly when the message is of a kind
it knows, without words, and its session configuration is the SDK's default; it reads all
fields exactly of partial transcripts, VAD events and final transcripts without words. -/
theorem sdk_reads_iff (format : Json → String) (message : ServerMessage) :
    (Reads format message (Conveys message) ↔ Readable message) ∧
      (Reads format message (ConveysInFull message) ↔ ReadableInFull message) := by
  cases message with
  | sessionBegin m =>
      obtain ⟨hshared, hfull⟩ := reads_sessionBegin format m
      exact ⟨hshared, iff_of_false hfull id⟩
  | transcriptPartial m =>
      have hfull := readsInFull_transcriptPartial format m
      exact ⟨iff_of_true hfull.conveys trivial, iff_of_true hfull trivial⟩
  | transcriptFinal m =>
      by_cases hwords : m.words.getD [] = []
      · have hfull := readsInFull_transcriptFinal format m hwords
        exact ⟨iff_of_true hfull.conveys hwords, iff_of_true hfull hwords⟩
      · have hnone := not_reads_transcriptFinal format m hwords
        exact ⟨iff_of_false (hnone _) hwords, iff_of_false (hnone _) hwords⟩
  | vadSpeechStart timestamp =>
      have hfull := readsInFull_vadSpeechStart format timestamp
      exact ⟨iff_of_true hfull.conveys trivial, iff_of_true hfull trivial⟩
  | vadSpeechEnd timestamp =>
      have hfull := readsInFull_vadSpeechEnd format timestamp
      exact ⟨iff_of_true hfull.conveys trivial, iff_of_true hfull trivial⟩
  | sessionEnd m =>
      obtain ⟨hshared, hfull⟩ := reads_sessionEnd format m
      exact ⟨iff_of_true hshared trivial, iff_of_false hfull id⟩
  | error m =>
      obtain ⟨hshared, hfull⟩ := reads_error format m
      exact ⟨iff_of_true hshared trivial, iff_of_false hfull id⟩
  | processingLagWarning m =>
      have hnone := (not_reads_unknown format (Or.inl rfl) : ¬ Reads format _ (Conveys (.processingLagWarning m)))
      exact ⟨iff_of_false hnone id, iff_of_false (fun hfull => hnone hfull.conveys) id⟩
  | sessionTerminated m =>
      have hnone := (not_reads_unknown format (Or.inr rfl) : ¬ Reads format _ (Conveys (.sessionTerminated m)))
      exact ⟨iff_of_false hnone id, iff_of_false (fun hfull => hnone hfull.conveys) id⟩

/-- A final transcript with one word. -/
def wordFinal : ServerMessage :=
  .transcriptFinal ⟨"hello", 0, 1, 1, some [⟨"hello", 0, 1, 1⟩]⟩

/-- A session of a model that is not the SDK's default. -/
def modelBegin : ServerMessage :=
  .sessionBegin ⟨"sess_1", ⟨16000, "pcm_s16le", 1, "en", "parakeet"⟩, none⟩

def lagWarning : ServerMessage :=
  .processingLagWarning ⟨3, 2, 5, "Processing lag is above threshold"⟩

/-- A word makes the parser raise, the echoed configuration is replaced by defaults, and a
warning becomes an unknown message. -/
theorem sdk_misreads :
    parseMessage (fun _ => "") wordFinal.toDict = .error (.keyError "text") ∧
      parseMessage (fun _ => "") modelBegin.toDict = .ok ⟨.sessionBegin, .sessionBegin
        ⟨.str "sess_1", .str "", .str "auto", .num 16000, .str "pcm_s16le"⟩⟩ ∧
      (∃ data, parseMessage (fun _ => "") lagWarning.toDict = .ok ⟨.error, data⟩) ∧
      ∀ message ∈ [wordFinal, modelBegin, lagWarning],
        ¬ Reads (fun _ => "") message (Conveys message) := by
  refine ⟨rfl, rfl, ⟨_, rfl⟩, ?_⟩
  intro message hmessage
  simp only [List.mem_cons, List.not_mem_nil, or_false] at hmessage
  rcases hmessage with rfl | rfl | rfl
  · exact not_reads_transcriptFinal _ _ (by simp) _
  · intro h
    have hmodel := ((reads_sessionBegin _ _).1.mp h).1
    exact absurd hmodel (by decide)
  · exact not_reads_unknown _ (Or.inl rfl)

end Dalston.Realtime.Sdk
