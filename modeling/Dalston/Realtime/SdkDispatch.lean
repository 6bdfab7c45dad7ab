import Dalston.Realtime.SdkDelivery

/-!
# The dispatch of the realtime messages by the SDK

Every callback is called with every message of its kind, and `close` returns the
statistics, as long as no exception or time-out ends the receive loop while the
application is owed a message.
-/

namespace Dalston.Realtime.Sdk

open Foundation Model

variable {format : Json → String}

def Frame.isEnd : Frame → Bool
  | .binary => false
  | .text data => (messageType data).isEnd

theorem statistics_eq_none_of_isEnd {frames : List Frame}
    (h : ∀ frame ∈ frames, frame.isEnd = false) : statistics format frames = none := by
  induction frames with
  | nil => rfl
  | cons frame frames ih =>
      have hrest := ih fun frame hframe => h frame (List.mem_cons_of_mem _ hframe)
      cases frame with
      | binary => exact hrest
      | text data =>
          rw [statistics_of_messages_eq (messages_text_of_other (h _ List.mem_cons_self))]
          exact hrest

namespace RealtimeSession

/-- The messages with which one callback has been called. -/
def callsOf (calls : List Call) (key : String) (index : Nat) : List RealtimeMessage :=
  (calls.filter fun call => call.key = key ∧ call.index = index).map (·.message)

/-- A callback is registered for the message. -/
def Wanted (s : RealtimeSession) : Frame → Bool
  | .binary => false
  | .text data =>
      match callbackKey (messageType data) with
      | none => false
      | some key => 0 < s.callbacks key

/-- A callback or a `close` that has not stopped waiting needs the message. -/
def Owed (s : RealtimeSession) (frame : Frame) : Bool :=
  s.Wanted frame || (s.heard.isNone && frame.isEnd)

/-- What `close` has returned is what the server had sent when the wait ended, or came later. -/
def Reports (format : Json → String) (s : RealtimeSession) (result : Option RealtimeData) : Prop :=
  (∀ frames stats, s.heard = some frames → Sdk.statistics format frames = some stats →
      result.map .ok = some stats) ∧
    ∀ stats, result = some stats → Sdk.statistics format s.wire.sent = some (.ok stats)

/-- The messages with which a callback was called and those that are unread are those that were
sent, none is unread when the loop has ended, and `close` returns the statistics. -/
structure Delivers (format : Json → String) (s : RealtimeSession) : Prop where
  inOrder : ∀ key index, index < s.callbacks key →
    messages format (under key) s.wire.sent =
      (callsOf s.calls key index).map .ok ++ messages format (under key) s.wire.inbox
  complete : s.loop.ended = true → ∀ frame ∈ s.wire.inbox, s.Wanted frame = false
  statistics : ∀ result, s.closer = .returned result → s.Reports format result

/-- The message ends the loop with an exception. -/
def Fails (format : Json → String) (s : RealtimeSession) (raises : Nat → Bool) (data : Config) :
    Prop :=
  (∀ message, parseMessage format data ≠ .ok message) ∨
    ∃ key index, callbackKey (messageType data) = some key ∧ index < s.callbacks key ∧
      raises index = true

/-- A message that is owed is readable, no callback but the last raises, and an exception leaves
nothing behind that is owed. -/
def Takes (format : Json → String) (s : RealtimeSession) (raises : Nat → Bool) (data : Config)
    (rest : List Frame) : Prop :=
  (s.Owed (.text data) = true → ∃ message, parseMessage format data = .ok message) ∧
    (∀ key, callbackKey (messageType data) = some key →
      ∀ index, index + 1 < s.callbacks key → raises index = false) ∧
    (s.Fails format raises data → ∀ frame ∈ rest, s.Owed frame = false)

/-- Nothing that is owed arrives after the loop has ended or the socket was closed, and nothing
that is owed is unread when a failure to send, an exception or a time-out ends the loop. -/
def Unimpeded (format : Json → String) (s : RealtimeSession) : SyncAction → Prop
  | .arrive frame =>
      s.loop.ended = true ∨ s.wire.connection = .closedByClient → s.Owed frame = false
  | .sent => s.wire.connection = .open ∨ ∀ frame ∈ s.wire.inbox, s.Owed frame = false
  | .recv raises => ∀ data rest, s.wire.inbox = .text data :: rest → s.Takes format raises data rest
  | .waitTimesOut => ∀ frame ∈ s.wire.inbox, frame.isEnd = false
  | .loopStops => ∀ frame ∈ s.wire.inbox, s.Owed frame = false
  | _ => True

/-- What holds where `close` stands. -/
def Phase (format : Json → String) (s : RealtimeSession) : SyncClose → Prop
  | .notCalled | .waiting => s.heard = none
  | .cleaning | .stopping => s.heard ≠ none
  | .returned result => s.heard ≠ none ∧ s.Reports format result

structure Attentive (format : Json → String) (s : RealtimeSession) : Prop where
  wire : s.wire.Sound
  inOrder : ∀ key index, index < s.callbacks key →
    messages format (under key) s.wire.sent =
      (callsOf s.calls key index).map .ok ++ messages format (under key) s.wire.inbox
  complete : s.loop.ended = true → ∀ frame ∈ s.wire.inbox, s.Wanted frame = false
  unread : ∀ stats, Sdk.statistics format s.wire.inbox = some stats →
    Sdk.statistics format s.wire.sent = some stats
  remaining : s.heard = none → Sdk.statistics format s.wire.sent =
    (s.sessionEnd.map .ok).or (Sdk.statistics format s.wire.inbox)
  ended : s.heard = none → s.loop.ended = true → Sdk.statistics format s.wire.inbox = none
  stored : ∀ stats, s.sessionEnd = some stats →
    Sdk.statistics format s.wire.sent = some (.ok stats) ∧ s.loop.ended = true
  waited : ∀ frames, s.heard = some frames → Sdk.statistics format frames = none ∨
    Sdk.statistics format frames = s.sessionEnd.map .ok
  listening : s.wire.connection = .closedByClient → s.heard ≠ none
  phase : s.Phase format s.closer

variable {s : RealtimeSession}

theorem attentive_connected (callbacks : String → Nat) :
    (connected callbacks).Attentive format where
  wire := Wire.sound_fresh
  inOrder _ _ _ := rfl
  complete h := by cases h
  unread stats h := by cases h
  remaining _ := rfl
  ended _ h := by cases h
  stored stats h := by cases h
  waited frames h := by cases h
  listening h := by cases h
  phase := rfl

theorem Attentive.delivers (h : s.Attentive format) : s.Delivers format where
  inOrder := h.inOrder
  complete := h.complete
  statistics result hcloser := by
    have hphase := h.phase
    rw [hcloser] at hphase
    exact hphase.2

section Owed

theorem wanted_of_not_owed {frame : Frame} (h : s.Owed frame = false) : s.Wanted frame = false :=
  (Bool.or_eq_false_iff.mp h).1

theorem isEnd_of_not_owed {frame : Frame} (h : s.Owed frame = false) (hheard : s.heard = none) :
    frame.isEnd = false := by
  have hend := (Bool.or_eq_false_iff.mp h).2
  rw [hheard] at hend
  exact hend

theorem statistics_of_not_owed (h : ∀ frame ∈ s.wire.inbox, s.Owed frame = false)
    (hheard : s.heard = none) : Sdk.statistics format s.wire.inbox = none :=
  statistics_eq_none_of_isEnd fun frame hframe => isEnd_of_not_owed (h frame hframe) hheard

/-- No callback waits for a message that is not wanted. -/
theorem messages_of_not_wanted {frame : Frame} (h : s.Wanted frame = false) {key : String}
    {index : Nat} (hindex : index < s.callbacks key) : messages format (under key) [frame] = [] := by
  cases frame with
  | binary => rfl
  | text data =>
      refine messages_text_of_other ?_
      by_contra hunder
      have hkey : callbackKey (messageType data) = some key := by
        simpa [under] using hunder
      unfold Wanted at h
      simp only [hkey, decide_eq_false_iff_not] at h
      omega

end Owed

section Dispatch

theorem reached_eq {count : Nat} {raises : Nat → Bool}
    (h : ∀ index, index + 1 < count → raises index = false) : reached count raises = count := by
  unfold reached
  split
  case h_1 index hfind =>
    have hraises := List.find?_some hfind
    have hindex := List.mem_range.mp (List.mem_of_find?_eq_some hfind)
    by_contra hne
    rw [h index (by omega)] at hraises
    cases hraises
  case h_2 => rfl

theorem callsOf_append (calls others : List Call) (key : String) (index : Nat) :
    callsOf (calls ++ others) key index = callsOf calls key index ++ callsOf others key index := by
  unfold callsOf
  rw [List.filter_append, List.map_append]

/-- The calls of a round of the callbacks under a key. -/
def round (count : Nat) (key : String) (message : RealtimeMessage) : List Call :=
  (List.range count).map (⟨key, ·, message⟩)

/-- In a round each of the callbacks is called once. -/
theorem callsOf_round {count index : Nat} (hindex : index < count) (key : String)
    (message : RealtimeMessage) : callsOf (round count key message) key index = [message] := by
  have hcount : (List.range count).count index = 1 :=
    List.count_eq_one_of_mem List.nodup_range (List.mem_range.mpr hindex)
  have hone : (List.range count).filter
      ((fun call : Call => decide (call.key = key ∧ call.index = index)) ∘
        (⟨key, ·, message⟩)) = [index] := by
    rw [← List.replicate_one, ← hcount, ← List.filter_eq]
    congr 1
    funext other
    simp
  unfold callsOf round
  rw [List.filter_map, List.map_map, hone]
  rfl

theorem callsOf_round_of_ne {key key' : String} (hne : key' ≠ key) (count index : Nat)
    (message : RealtimeMessage) : callsOf (round count key' message) key index = [] := by
  have hnone : (List.range count).filter
      ((fun call : Call => decide (call.key = key ∧ call.index = index)) ∘
        (⟨key', ·, message⟩)) = [] := by
    rw [List.filter_eq_nil_iff]
    intro other _
    simp [hne]
  unfold callsOf round
  rw [List.filter_map, List.map_map, hnone]
  rfl

/-- When no callback but the last raises, every callback for the message is called once. -/
theorem callsOf_dispatch {raises : Nat → Bool} {data : Config} {message : RealtimeMessage}
    (hparse : parseMessage format data = .ok message)
    (hraises : ∀ key, callbackKey (messageType data) = some key →
      ∀ index, index + 1 < s.callbacks key → raises index = false)
    {key : String} {index : Nat} (hindex : index < s.callbacks key) :
    (callsOf (s.dispatch raises message).1 key index).map .ok =
      messages format (under key) [.text data] := by
  unfold dispatch
  rw [type_of_parseMessage hparse]
  cases hkey : callbackKey (messageType data) with
  | none =>
      rw [messages_text_of_other (by simp [under, hkey])]
      rfl
  | some key' =>
      dsimp only
      rw [reached_eq (hraises key' hkey)]
      by_cases hsame : key' = key
      · subst hsame
        rw [messages_text_of_type (by simp [under, hkey]), hparse]
        exact congrArg (List.map Except.ok) (callsOf_round hindex key' message)
      · rw [messages_text_of_other (by simp [under, hkey, hsame])]
        exact congrArg (List.map Except.ok) (callsOf_round_of_ne hsame _ index message)

theorem dispatch_of_sessionEnd {raises : Nat → Bool} {message : RealtimeMessage}
    (h : message.type = .sessionEnd) : s.dispatch raises message = ([], false) := by
  unfold dispatch
  rw [h]
  rfl

/-- A dispatch that raises is one of a message with callbacks. -/
theorem fails_of_dispatch {raises : Nat → Bool} {data : Config} {message : RealtimeMessage}
    (hparse : parseMessage format data = .ok message) (h : (s.dispatch raises message).2 = true) :
    s.Fails format raises data ∧ (messageType data).isEnd = false := by
  unfold dispatch at h
  rw [type_of_parseMessage hparse] at h
  cases hkey : callbackKey (messageType data) with
  | none =>
      rw [hkey] at h
      cases h
  | some key =>
      rw [hkey] at h
      obtain ⟨index, hindex, hraises⟩ := List.any_eq_true.mp h
      refine ⟨Or.inr ⟨key, index, hkey, List.mem_range.mp hindex, hraises⟩, ?_⟩
      cases htype : messageType data with
      | sessionEnd =>
          rw [htype] at hkey
          cases hkey
      | _ => rfl

end Dispatch

section Steps

/-- The loop goes on, or ends when nothing is left that is owed. -/
theorem Attentive.moves (h : s.Attentive format) (hloop : s.loop.ended = false) {loop : ReceiveLoop}
    (hspent : loop.ended = true → ∀ frame ∈ s.wire.inbox, s.Owed frame = false)
    (endSent connectionLost : Bool) :
    ({ s with loop, endSent, connectionLost } : RealtimeSession).Attentive format where
  wire := h.wire
  inOrder := h.inOrder
  complete hended frame hframe := wanted_of_not_owed (hspent hended frame hframe)
  unread := h.unread
  remaining := h.remaining
  ended hheard hended := statistics_of_not_owed (hspent hended) hheard
  stored stats hstored := by
    have hended := (h.stored stats hstored).2
    rw [hloop] at hended
    cases hended
  waited := h.waited
  listening := h.listening
  phase := by
    have hphase := h.phase
    cases hcloser : s.closer <;> rw [hcloser] at hphase <;> exact hphase

theorem Attentive.serverCloses (h : s.Attentive format) :
    ({ s with wire := s.wire.serverCloses } : RealtimeSession).Attentive format := by
  unfold Wire.serverCloses
  split
  case isFalse => exact h
  case isTrue =>
    refine ⟨⟨h.wire.last, h.wire.known⟩, h.inOrder, h.complete, h.unread, h.remaining, h.ended,
      h.stored, h.waited, ?_, ?_⟩
    · intro hclosed
      cases hclosed
    · have hphase := h.phase
      cases hcloser : s.closer <;> rw [hcloser] at hphase <;> exact hphase

theorem Reports.append {s s' : RealtimeSession} {frames : List Frame} {result : Option RealtimeData}
    (h : s.Reports format result) (hheard : s'.heard = s.heard)
    (hsent : s'.wire.sent = s.wire.sent ++ frames) : s'.Reports format result := by
  constructor
  · rw [hheard]
    exact h.1
  · intro stats hstats
    rw [hsent, statistics_append, h.2 stats hstats]
    rfl

theorem Attentive.arrive (h : s.Attentive format) {frame : Frame}
    (hunimpeded : s.Unimpeded format (.arrive frame)) :
    ({ s with wire := s.wire.arrive frame } : RealtimeSession).Attentive format := by
  have hwire := h.wire.arrive frame
  obtain heq | ⟨hearlier, ⟨hconnection, heq⟩ | ⟨hconnection, heq⟩⟩ := s.wire.arrive_cases frame
  · rw [heq]
    exact h
  · rw [heq] at hwire ⊢
    constructor
    case wire => exact hwire
    case inOrder =>
      intro key index hindex
      dsimp only
      rw [messages_append, messages_append, h.inOrder key index hindex, List.append_assoc]
    case complete =>
      intro hended other hother
      obtain hother | hother := List.mem_append.mp hother
      · exact h.complete hended other hother
      · rw [List.mem_singleton.mp hother]
        exact wanted_of_not_owed (hunimpeded (Or.inl hended))
    case unread =>
      intro stats hstats
      dsimp only at hstats ⊢
      rw [statistics_append] at hstats ⊢
      rw [statistics_eq_none hearlier]
      have hnone : Sdk.statistics format s.wire.inbox = none :=
        statistics_eq_none fun other hother => hearlier other (h.wire.known other hother)
      rw [hnone] at hstats
      exact hstats
    case remaining =>
      intro hheard
      dsimp only
      rw [statistics_append, statistics_append, h.remaining hheard, Option.or_assoc]
    case ended =>
      intro hheard hended
      have hend := isEnd_of_not_owed (hunimpeded (Or.inl hended)) hheard
      dsimp only
      rw [statistics_append, h.ended hheard hended]
      refine statistics_eq_none_of_isEnd fun other hother => ?_
      rw [List.mem_singleton.mp hother]
      exact hend
    case stored =>
      intro stats hstored
      obtain ⟨hstats, hended⟩ := h.stored stats hstored
      refine ⟨?_, hended⟩
      dsimp only
      rw [statistics_append, hstats]
      rfl
    case waited => exact h.waited
    case listening => exact h.listening
    case phase =>
      have hphase := h.phase
      cases hcloser : s.closer with
      | returned result =>
          rw [hcloser] at hphase
          exact ⟨hphase.1, hphase.2.append rfl rfl⟩
      | _ =>
          rw [hcloser] at hphase
          exact hphase
  · rw [heq] at hwire ⊢
    have howed := hunimpeded (Or.inr hconnection)
    constructor
    case wire => exact hwire
    case inOrder =>
      intro key index hindex
      dsimp only
      rw [messages_append, messages_of_not_wanted (wanted_of_not_owed howed) hindex,
        List.append_nil]
      exact h.inOrder key index hindex
    case complete => exact h.complete
    case unread =>
      intro stats hstats
      dsimp only
      rw [statistics_append, h.unread stats hstats]
      rfl
    case remaining => exact fun hheard => absurd hheard (h.listening hconnection)
    case ended => exact h.ended
    case stored =>
      intro stats hstored
      obtain ⟨hstats, hended⟩ := h.stored stats hstored
      refine ⟨?_, hended⟩
      dsimp only
      rw [statistics_append, hstats]
      rfl
    case waited => exact h.waited
    case listening => exact h.listening
    case phase =>
      have hphase := h.phase
      cases hcloser : s.closer with
      | returned result =>
          rw [hcloser] at hphase
          exact ⟨hphase.1, hphase.2.append rfl rfl⟩
      | _ =>
          rw [hcloser] at hphase
          exact hphase

theorem Attentive.sessionEnd_eq_none (h : s.Attentive format) (hloop : s.loop.ended = false) :
    s.sessionEnd = none := by
  cases hstored : s.sessionEnd with
  | none => rfl
  | some stats =>
      have hended := (h.stored stats hstored).2
      rw [hloop] at hended
      cases hended

/-- A message is taken, and its callbacks are called. -/
theorem Attentive.takes (h : s.Attentive format) (hloop : s.loop.ended = false) {data : Config}
    {rest : List Frame} (hinbox : s.wire.inbox = .text data :: rest) {calls : List Call}
    (hcalls : ∀ key index, index < s.callbacks key →
      (callsOf calls key index).map .ok = messages format (under key) [.text data])
    (hend : s.heard = none → (messageType data).isEnd = false) :
    ({ s with wire := { s.wire with inbox := rest }, calls := s.calls ++ calls } :
      RealtimeSession).Attentive format := by
  have hsuffix : Frame.text data :: rest <:+ s.wire.inbox := by rw [hinbox]
  have hrest : (messageType data).isEnd = false →
      Sdk.statistics format rest = Sdk.statistics format s.wire.inbox := by
    intro hother
    rw [hinbox]
    exact (statistics_of_messages_eq (messages_text_of_other hother)).symm
  constructor
  case wire => exact h.wire.read ((List.suffix_cons _ _).trans hsuffix)
  case inOrder =>
    intro key index hindex
    have hsplit := @messages_append format (under key) [Frame.text data] rest
    rw [List.singleton_append, ← hinbox, ← hcalls key index hindex] at hsplit
    dsimp only
    rw [h.inOrder key index hindex, hsplit, callsOf_append, List.map_append, List.append_assoc]
  case complete =>
    intro hended
    rw [hloop] at hended
    cases hended
  case unread =>
    intro stats hstats
    dsimp only at hstats
    cases hisEnd : (messageType data).isEnd with
    | true =>
        obtain rfl := h.wire.rest_eq_nil hsuffix (terminal_of_isEnd hisEnd)
        cases hstats
    | false =>
        rw [hrest hisEnd] at hstats
        exact h.unread stats hstats
  case remaining =>
    intro hheard
    dsimp only
    rw [hrest (hend hheard)]
    exact h.remaining hheard
  case ended =>
    intro _ hended
    rw [hloop] at hended
    cases hended
  case stored => exact h.stored
  case waited => exact h.waited
  case listening => exact h.listening
  case phase =>
    have hphase := h.phase
    cases hcloser : s.closer <;> rw [hcloser] at hphase <;> exact hphase

/-- The statistics are taken and stored. -/
theorem Attentive.stores (h : s.Attentive format) (hloop : s.loop.ended = false) {data : Config}
    {rest : List Frame} (hinbox : s.wire.inbox = .text data :: rest) {message : RealtimeMessage}
    (hparse : parseMessage format data = .ok message) (htype : messageType data = .sessionEnd) :
    ({ s with
        wire := { s.wire with inbox := rest }
        sessionEnd := some message.data
        loop := .finished } : RealtimeSession).Attentive format := by
  have hsuffix : Frame.text data :: rest <:+ s.wire.inbox := by rw [hinbox]
  have hisEnd : (messageType data).isEnd = true := by simp [RealtimeMessageType.isEnd, htype]
  obtain rfl := h.wire.rest_eq_nil hsuffix (terminal_of_isEnd hisEnd)
  have hstats : Sdk.statistics format s.wire.inbox = some (.ok message.data) := by
    rw [hinbox]
    unfold Sdk.statistics
    rw [messages_text_of_type hisEnd, hparse]
    rfl
  have hsent := h.unread _ hstats
  constructor
  case wire => exact h.wire.read List.nil_suffix
  case inOrder =>
    intro key index hindex
    have hunder : under key (messageType data) = false := by
      rw [htype]
      rfl
    have hinOrder := h.inOrder key index hindex
    rw [hinbox, messages_text_of_other hunder] at hinOrder
    exact hinOrder
  case complete =>
    intro _ frame hframe
    cases hframe
  case unread =>
    intro stats hnone
    cases hnone
  case remaining => exact fun _ => hsent
  case ended => exact fun _ _ => rfl
  case stored =>
    intro stats hstored
    obtain rfl := Option.some.inj hstored
    exact ⟨hsent, rfl⟩
  case waited =>
    intro frames hheard
    obtain hnone | hstored := h.waited frames hheard
    · exact Or.inl hnone
    · rw [h.sessionEnd_eq_none hloop] at hstored
      exact Or.inl hstored
  case listening => exact h.listening
  case phase =>
    have hphase := h.phase
    cases hcloser : s.closer <;> rw [hcloser] at hphase <;> exact hphase

theorem Attentive.skips (h : s.Attentive format) (hloop : s.loop.ended = false) {rest : List Frame}
    (hinbox : s.wire.inbox = .binary :: rest) :
    ({ s with wire := { s.wire with inbox := rest } } : RealtimeSession).Attentive format := by
  have hmessages : ∀ types, messages format types s.wire.inbox = messages format types rest := by
    intro types
    rw [hinbox, messages_binary]
  have hstats : Sdk.statistics format s.wire.inbox = Sdk.statistics format rest :=
    statistics_of_messages_eq (hmessages _)
  constructor
  case wire => exact h.wire.read (by rw [hinbox]; exact List.suffix_cons _ _)
  case inOrder =>
    intro key index hindex
    dsimp only
    rw [h.inOrder key index hindex, hmessages]
  case complete =>
    intro hended
    rw [hloop] at hended
    cases hended
  case unread => exact fun stats hrest => h.unread stats (hstats.trans hrest)
  case remaining =>
    intro hheard
    dsimp only
    rw [← hstats]
    exact h.remaining hheard
  case ended =>
    intro _ hended
    rw [hloop] at hended
    cases hended
  case stored => exact h.stored
  case waited => exact h.waited
  case listening => exact h.listening
  case phase =>
    have hphase := h.phase
    cases hcloser : s.closer <;> rw [hcloser] at hphase <;> exact hphase

theorem Attentive.recv (h : s.Attentive format) (hloop : s.loop.ended = false)
    {raises : Nat → Bool} (hunimpeded : s.Unimpeded format (.recv raises)) :
    (s.recv format raises).Attentive format := by
  unfold RealtimeSession.recv
  split
  case h_1 hinbox =>
    split
    case isTrue => exact h
    case isFalse =>
      refine h.moves hloop (fun _ frame hframe => ?_) _ _
      rw [hinbox] at hframe
      cases hframe
  case h_2 rest hinbox =>
    exact (h.skips hloop hinbox).moves hloop (fun hended => by cases hended) _ _
  case h_3 data rest hinbox =>
    obtain ⟨hreadable, hraises, hspent⟩ := hunimpeded data rest hinbox
    cases hparse : parseMessage format data with
    | error error =>
        have hfails : s.Fails format raises data := by
          refine Or.inl fun message hmessage => ?_
          rw [hparse] at hmessage
          cases hmessage
        have howed : s.Owed (.text data) = false := by
          by_contra howed
          obtain ⟨message, hmessage⟩ := hreadable (Bool.eq_true_of_not_eq_false howed)
          rw [hparse] at hmessage
          cases hmessage
        have htaken : ({ s with
            wire := { s.wire with inbox := rest }, calls := s.calls ++ [] } :
              RealtimeSession).Attentive format :=
          h.takes hloop hinbox
            (fun key index hindex =>
              (messages_of_not_wanted (wanted_of_not_owed howed) hindex).symm)
            fun hheard => isEnd_of_not_owed howed hheard
        rw [List.append_nil] at htaken
        exact htaken.moves hloop (fun _ => hspent hfails) _ _
    | ok message =>
        have hcalls := fun key index (hindex : index < s.callbacks key) =>
          callsOf_dispatch hparse hraises hindex
        have htype := type_of_parseMessage hparse
        dsimp only
        split
        case isTrue hraised =>
          obtain ⟨hfails, hother⟩ := fails_of_dispatch hparse hraised
          exact (h.takes hloop hinbox hcalls fun _ => hother).moves hloop
            (fun _ => hspent hfails) _ _
        case isFalse =>
          split
          case isTrue hend =>
            rw [dispatch_of_sessionEnd hend, List.append_nil]
            exact h.stores hloop hinbox hparse (htype.symm.trans hend)
          case isFalse hend =>
            have hother : (messageType data).isEnd = false := by
              rw [← htype]
              simp [RealtimeMessageType.isEnd, hend]
            exact (h.takes hloop hinbox hcalls fun _ => hother).moves hloop
              (fun hended => by cases hended) _ _

theorem Attentive.hears (h : s.Attentive format) (hcloser : s.closer = .waiting)
    (hnone : Sdk.statistics format s.wire.inbox = none) (stopEvent : Bool) :
    ({ s with stopEvent, heard := some s.wire.sent, closer := .cleaning } :
      RealtimeSession).Attentive format := by
  have hheard : s.heard = none := by
    have hphase := h.phase
    rw [hcloser] at hphase
    exact hphase
  constructor
  case wire => exact h.wire
  case inOrder => exact h.inOrder
  case complete => exact h.complete
  case unread => exact h.unread
  case remaining =>
    intro hnot
    cases hnot
  case ended =>
    intro hnot
    cases hnot
  case stored => exact h.stored
  case waited =>
    intro frames hframes
    obtain rfl := Option.some.inj hframes
    have hremaining := h.remaining hheard
    rw [hnone, Option.or_none] at hremaining
    exact Or.inr hremaining
  case listening =>
    intro _ hnot
    cases hnot
  case phase =>
    intro hnot
    cases hnot

theorem Attentive.cleans (h : s.Attentive format) (hcloser : s.closer = .cleaning) (closed : Bool) :
    ({ s with wire := if closed then s.wire.close else s.wire, closer := .stopping } :
      RealtimeSession).Attentive format := by
  have hheard : s.heard ≠ none := by
    have hphase := h.phase
    rw [hcloser] at hphase
    exact hphase
  cases closed with
  | false => exact ⟨h.wire, h.inOrder, h.complete, h.unread, h.remaining, h.ended, h.stored,
      h.waited, h.listening, hheard⟩
  | true =>
      have hwire := h.wire.close
      unfold Wire.close at hwire ⊢
      simp only [if_true]
      split at hwire
      case isTrue hopen =>
        rw [if_pos hopen]
        exact ⟨hwire, h.inOrder, h.complete, h.unread, h.remaining, h.ended, h.stored, h.waited,
          fun _ => hheard, hheard⟩
      case isFalse hclosed =>
        rw [if_neg hclosed]
        exact ⟨h.wire, h.inOrder, h.complete, h.unread, h.remaining, h.ended, h.stored, h.waited,
          h.listening, hheard⟩

theorem Attentive.returns (h : s.Attentive format) (hcloser : s.closer = .stopping) :
    ({ s with closer := .returned s.sessionEnd } : RealtimeSession).Attentive format := by
  have hheard : s.heard ≠ none := by
    have hphase := h.phase
    rw [hcloser] at hphase
    exact hphase
  refine ⟨h.wire, h.inOrder, h.complete, h.unread, h.remaining, h.ended, h.stored, h.waited,
    h.listening, hheard, ?_, fun stats hstored => (h.stored stats hstored).1⟩
  intro frames stats hframes hstats
  obtain hnone | hstored := h.waited frames hframes
  · rw [hnone] at hstats
    cases hstats
  · rw [← hstored, hstats]

theorem Attentive.step (h : s.Attentive format) {action : SyncAction}
    (hunimpeded : s.Unimpeded format action) : (s.next format action).Attentive format := by
  cases action with
  | arrive frame => exact h.arrive hunimpeded
  | serverCloses => exact h.serverCloses
  | turn =>
      unfold next
      dsimp only
      split
      case isTrue hloop =>
        refine h.moves (by rw [hloop]; rfl) (fun hended => ?_) _ _
        split at hended <;> cases hended
      case isFalse => exact h
  | sent =>
      unfold next
      dsimp only
      split
      case isTrue hloop =>
        have hnotEnded : s.loop.ended = false := by
          rw [hloop]
          rfl
        split
        case isTrue => exact h.moves hnotEnded (fun hended => by cases hended) _ _
        case isFalse hclosed =>
          exact h.moves hnotEnded (fun _ => hunimpeded.resolve_left hclosed) _ _
      case isFalse => exact h
  | recvTimeout =>
      unfold next
      dsimp only
      split
      case isTrue hloop =>
        exact h.moves (by rw [hloop]; rfl) (fun hended => by cases hended) _ _
      case isFalse => exact h
  | recv raises =>
      unfold next
      dsimp only
      split
      case isTrue hloop => exact h.recv (by rw [hloop]; rfl) hunimpeded
      case isFalse => exact h
  | close =>
      unfold next
      dsimp only
      split
      case h_1 hcloser =>
        have hheard : s.heard = none := by
          have hphase := h.phase
          rw [hcloser] at hphase
          exact hphase
        exact ⟨h.wire, h.inOrder, h.complete, h.unread, h.remaining, h.ended, h.stored, h.waited,
          h.listening, hheard⟩
      case h_2 => exact h
  | completed =>
      unfold next
      dsimp only
      split
      case h_1 hcloser =>
        split
        case isTrue hloop =>
          have hheard : s.heard = none := by
            have hphase := h.phase
            rw [hcloser] at hphase
            exact hphase
          exact h.hears hcloser (h.ended hheard (by rw [hloop]; rfl)) _
        case isFalse => exact h
      case h_2 => exact h
  | waitTimesOut =>
      unfold next
      dsimp only
      split
      case h_1 hcloser =>
        split
        case isTrue => exact h
        case isFalse => exact h.hears hcloser (statistics_eq_none_of_isEnd hunimpeded) _
      case h_2 => exact h
  | cleanedUp closed =>
      unfold next
      dsimp only
      split
      case h_1 hcloser => exact h.cleans hcloser closed
      case h_2 => exact h
  | loopStops =>
      unfold next
      dsimp only
      split
      case h_3 => exact h
      all_goals
        split
        case isTrue => exact h
        case isFalse hloop =>
          exact h.moves (Bool.eq_false_of_not_eq_true hloop) (fun _ => hunimpeded) _ _
  | returns =>
      unfold next
      dsimp only
      split
      case h_1 hcloser => exact h.returns hcloser
      case h_2 => exact h

end Steps

end RealtimeSession

/-- Every final is handed over once and in order, and `close` returns the statistics, in every run
in which nothing that the application is owed is taken away. -/
theorem delivered_of_unhurried (format : Json → String) :
    (∀ s, ActionRun (Acts (AsyncRealtimeSession.next format))
        (AsyncRealtimeSession.Unhurried format) .connected s → s.Delivers format) ∧
      ∀ callbacks s, ActionRun (Acts (RealtimeSession.next format))
        (RealtimeSession.Unimpeded format) (.connected callbacks) s → s.Delivers format := by
  constructor
  · intro s run
    have hordered : s.Ordered format :=
      run.invariant AsyncRealtimeSession.ordered_connected fun s action s' hs hstep hok => by
        obtain rfl := hstep
        exact hs.step hok
    exact hordered.delivers
  · intro callbacks s run
    have hattentive : s.Attentive format :=
      run.invariant (RealtimeSession.attentive_connected callbacks)
        fun s action s' hs hstep hok => by
          obtain rfl := hstep
          exact hs.step hok
    exact hattentive.delivers

section Samples

def finalFrame : Frame := .text [("type", .str "transcript.final"), ("text", .str "hello")]

def endFrame : Frame := .text [("type", .str "session.end"), ("session_id", .str "sess_a")]

/-- The iteration has the final when `close` is called. -/
def patient : List AsyncAction :=
  [.iterate, .arrive finalFrame, .wake, .close, .sent, .arrive endFrame, .drain, .closed]

/-- Two callbacks for finals do not raise. -/
def quiet : List SyncAction :=
  [.turn, .arrive finalFrame, .recv fun _ => false, .close, .turn, .sent, .arrive endFrame,
    .recv fun _ => false, .completed, .cleanedUp true, .returns]

def twoCallbacks (key : String) : Nat := if key = "final" then 2 else 0

theorem patient_unhurried : AllPermitted (AsyncRealtimeSession.next fun _ => "")
    (AsyncRealtimeSession.Unhurried fun _ => "") .connected patient := by
  refine ⟨?_, trivial, ?_, rfl, ?_, trivial, ?_, trivial, trivial⟩
  · intro data rest hnext
    cases hnext
  · intro data rest hnext
    cases hnext
    exact ⟨fun _ => ⟨_, rfl⟩, fun hunderWay => by cases hunderWay⟩
  · intro hreceiving
    cases hreceiving
  · intro data rest hinbox
    cases hinbox
    exact ⟨rfl, _, rfl⟩

theorem quiet_unimpeded : AllPermitted (RealtimeSession.next fun _ => "")
    (RealtimeSession.Unimpeded fun _ => "") (.connected twoCallbacks) quiet := by
  refine ⟨trivial, ?_, ?_, trivial, trivial, Or.inl rfl, ?_, ?_, trivial, trivial, trivial, trivial⟩
  · rintro (hended | hclosed)
    · cases hended
    · cases hclosed
  · intro data rest hinbox
    cases hinbox
    exact ⟨fun _ => ⟨_, rfl⟩, fun _ _ _ _ => rfl, fun _ frame hframe => by cases hframe⟩
  · rintro (hended | hclosed)
    · cases hended
    · cases hclosed
  · intro data rest hinbox
    cases hinbox
    exact ⟨fun _ => ⟨_, rfl⟩, fun _ _ _ _ => rfl, fun _ frame hframe => by cases hframe⟩

theorem delivered_sample :
    (patient.foldl (AsyncRealtimeSession.next fun _ => "") .connected).Delivers (fun _ => "") ∧
      (quiet.foldl (RealtimeSession.next fun _ => "") (.connected twoCallbacks)).Delivers
        fun _ => "" :=
  ⟨(delivered_of_unhurried fun _ => "").1 _ (ActionRun.of_permitted patient_unhurried),
    (delivered_of_unhurried fun _ => "").2 _ _ (ActionRun.of_permitted quiet_unimpeded)⟩

/-- A final that arrives while `close` drains is discarded, and a callback that raises keeps a
final from the next callback and the statistics from `close`. -/
theorem discarded_final :
    (¬ ∀ actions : List AsyncAction, (actions.foldl (AsyncRealtimeSession.next fun _ => "") .connected).Delivers
        fun _ => "") ∧
      ¬ ∀ callbacks (actions : List SyncAction),
        (actions.foldl (RealtimeSession.next fun _ => "") (.connected callbacks)).Delivers
          fun _ => "" := by
  constructor
  · intro h
    have hfinals := (h [.close, .sent, .arrive finalFrame, .arrive endFrame, .drain, .drain,
      .closed]).inOrder
    have hlost := congrArg List.length hfinals
    revert hlost
    decide +kernel
  · intro h
    have hsecond := (h twoCallbacks [.turn, .arrive finalFrame, .recv fun index => index = 0,
      .arrive endFrame, .close, .completed, .cleanedUp true, .returns]).inOrder "final" 1
      (by decide)
    have hlost := congrArg List.length hsecond
    revert hlost
    decide +kernel

end Samples

end Dalston.Realtime.Sdk
