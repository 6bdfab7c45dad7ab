import Dalston.Realtime.SdkSessions

/-!
# The delivery of the realtime messages by the SDK

What the application has been handed, followed by what is unread, is what the server
has sent. A `close` that reads for itself, an exception of a callback and a wait that
times out break this, each unless nothing is left that the application is owed.
-/

namespace Dalston.Realtime.Sdk

open Foundation Model

variable {format : Json → String}

/-- `close` is sending or waits for the statistics. -/
def AsyncClose.underWay : AsyncClose → Bool
  | sending | draining => true
  | _ => false

def AsyncClose.called : AsyncClose → Bool
  | notCalled => false
  | _ => true

/-- `close` reads nothing more. -/
def AsyncClose.over : AsyncClose → Bool
  | notCalled | sending | draining => false
  | _ => true

namespace AsyncRealtimeSession

/-- No final is left to read. -/
def NoFinals (format : Json → String) (s : AsyncRealtimeSession) : Prop :=
  messages format RealtimeMessageType.isFinal s.wire.inbox = []

/-- The finals that were handed over and those that are unread are those that were sent, none is
unread when nothing can read it, and `close` has not failed and has returned the statistics. -/
structure Delivers (format : Json → String) (s : AsyncRealtimeSession) : Prop where
  inOrder : messages format RealtimeMessageType.isFinal s.wire.sent =
    (s.handed.filter (·.type.isFinal)).map .ok ++
      messages format RealtimeMessageType.isFinal s.wire.inbox
  complete : s.closer.done = true → s.iteration.active = false → s.NoFinals format
  statistics : ∀ result, s.closer = .returned result →
    Sdk.statistics format s.wire.sent = result.map .ok
  succeeds : s.closer ≠ .raised

/-- The iteration can read the message that it takes, and does not take the statistics from
`close`. An iteration that `close` does not depend on may fail at another message than a final. -/
def Takes (format : Json → String) (s : AsyncRealtimeSession) (data : Config) : Prop :=
  ((messageType data).isFinal = true ∨ s.closer.called = true →
      ∃ message, parseMessage format data = .ok message) ∧
    (s.closer.underWay = true → (messageType data).isEnd = false)

/-- The application is owed nothing that the step would take away: `close` is called before the
statistics have been taken, sends while no iteration is waiting and, on a closed connection, when
nothing is left for it; and the messages that it takes are readable and are not finals. -/
def Unhurried (format : Json → String) (s : AsyncRealtimeSession) : AsyncAction → Prop
  | .iterate | .wake => ∀ data rest, nextText s.wire.inbox = some (data, rest) → s.Takes format data
  | .leave => s.closer.over = true → s.NoFinals format
  | .close => Sdk.statistics format s.wire.sent = Sdk.statistics format s.wire.inbox
  | .sent =>
      if s.wire.connection = .open then s.iteration ≠ .receiving
      else Sdk.statistics format s.wire.inbox = none ∧ (s.iteration.active = true ∨ s.NoFinals format)
  | .drain => ∀ data rest, s.wire.inbox = .text data :: rest →
      (messageType data).isFinal = false ∧ ∃ message, parseMessage format data = .ok message
  | _ => True

/-- What `close` may rely on where it stands. -/
def Expects (format : Json → String) (s : AsyncRealtimeSession) : AsyncClose → Prop
  | .notCalled => True
  | .sending | .draining => Sdk.statistics format s.wire.sent = Sdk.statistics format s.wire.inbox
  | .closing result | .returned result =>
      Sdk.statistics format s.wire.sent = result.map .ok ∧ s.wire.Final ∧
        (s.iteration.active = true ∨ s.NoFinals format)
  | .failing | .raised => False

structure Ordered (format : Json → String) (s : AsyncRealtimeSession) : Prop where
  wire : s.wire.Sound
  inOrder : messages format RealtimeMessageType.isFinal s.wire.sent =
    (s.handed.filter (·.type.isFinal)).map .ok ++
      messages format RealtimeMessageType.isFinal s.wire.inbox
  closed : s.wire.connection = .closedByClient → s.wire.Final
  expects : s.Expects format s.closer

variable {s : AsyncRealtimeSession}

theorem ordered_connected : connected.Ordered format where
  wire := Wire.sound_fresh
  inOrder := rfl
  closed h := by cases h
  expects := trivial

theorem Ordered.delivers (h : s.Ordered format) : s.Delivers format where
  inOrder := h.inOrder
  complete hdone hactive := by
    have hexpects := h.expects
    cases hcloser : s.closer with
    | returned result =>
        rw [hcloser] at hexpects
        obtain ⟨-, -, hiteration | hfinals⟩ := hexpects
        · rw [hactive] at hiteration
          cases hiteration
        · exact hfinals
    | raised =>
        rw [hcloser] at hexpects
        exact hexpects.elim
    | _ =>
        rw [hcloser] at hdone
        cases hdone
  statistics result hcloser := by
    have hexpects := h.expects
    rw [hcloser] at hexpects
    exact hexpects.1
  succeeds hcloser := by
    have hexpects := h.expects
    rw [hcloser] at hexpects
    exact hexpects

/-- What the wire does without the client moves no message that `close` relies on. -/
theorem Ordered.arrive (h : s.Ordered format) (frame : Frame) :
    ({ s with wire := s.wire.arrive frame } : AsyncRealtimeSession).Ordered format := by
  obtain heq | ⟨hearlier, ⟨hconnection, heq⟩ | ⟨hconnection, heq⟩⟩ := s.wire.arrive_cases frame
  · rw [heq]
    exact h
  · have hnotFinal : ¬ s.wire.Final := by
      rintro (hlast | hclosed)
      · obtain ⟨other, hother, hterminal⟩ := List.any_eq_true.mp hlast
        rw [hearlier other hother] at hterminal
        cases hterminal
      · rw [hconnection] at hclosed
        cases hclosed
    constructor
    case wire => exact h.wire.arrive frame
    case inOrder =>
      dsimp only
      rw [heq, messages_append, messages_append, h.inOrder, List.append_assoc]
    case closed =>
      intro hclosed
      dsimp only at hclosed
      rw [heq] at hclosed
      exact absurd (h.closed hclosed) hnotFinal
    case expects =>
      have hexpects := h.expects
      cases hcloser : s.closer with
      | notCalled => trivial
      | sending | draining =>
          rw [hcloser] at hexpects
          have hbefore : Sdk.statistics format s.wire.sent = Sdk.statistics format s.wire.inbox :=
            hexpects
          show Sdk.statistics format (s.wire.arrive frame).sent =
            Sdk.statistics format (s.wire.arrive frame).inbox
          rw [heq, statistics_append, statistics_append, hbefore]
      | closing _ | returned _ =>
          rw [hcloser] at hexpects
          exact absurd hexpects.2.1 hnotFinal
      | failing | raised =>
          rw [hcloser] at hexpects
          exact hexpects.elim
  · obtain hlast | hclosed := h.closed hconnection
    · obtain ⟨other, hother, hterminal⟩ := List.any_eq_true.mp hlast
      rw [hearlier other hother] at hterminal
      cases hterminal
    · rw [hconnection] at hclosed
      cases hclosed

theorem Ordered.serverCloses (h : s.Ordered format) :
    ({ s with wire := s.wire.serverCloses } : AsyncRealtimeSession).Ordered format := by
  unfold Wire.serverCloses
  split
  case isFalse => exact h
  case isTrue hconnection =>
    constructor
    case wire => exact ⟨h.wire.last, h.wire.known⟩
    case inOrder => exact h.inOrder
    case closed => exact fun _ => Or.inr rfl
    case expects =>
      have hexpects := h.expects
      cases hcloser : s.closer with
      | notCalled => trivial
      | sending | draining =>
          rw [hcloser] at hexpects
          exact hexpects
      | closing _ | returned _ =>
          rw [hcloser] at hexpects
          exact ⟨hexpects.1, Or.inr rfl, hexpects.2.2⟩
      | failing | raised =>
          rw [hcloser] at hexpects
          exact hexpects.elim

/-- A step of the iteration that reads nothing. -/
theorem Ordered.iteration (h : s.Ordered format) (iteration : Iteration)
    (hactive : s.closer.over = true → s.iteration.active = true → iteration.active = false →
      s.NoFinals format) : ({ s with iteration } : AsyncRealtimeSession).Ordered format := by
  refine ⟨h.wire, h.inOrder, h.closed, ?_⟩
  have hexpects := h.expects
  cases hcloser : s.closer with
  | notCalled => trivial
  | sending | draining =>
      rw [hcloser] at hexpects
      exact hexpects
  | closing result | returned result =>
      rw [hcloser] at hexpects
      refine ⟨hexpects.1, hexpects.2.1, ?_⟩
      cases hnew : iteration.active with
      | true => exact Or.inl rfl
      | false =>
          obtain hold | hfinals := hexpects.2.2
          · exact Or.inr (hactive (by rw [hcloser]; rfl) hold hnew)
          · exact Or.inr hfinals
  | failing | raised =>
      rw [hcloser] at hexpects
      exact hexpects.elim

/-- The finals stay in order when a message is taken by the iteration. -/
theorem Ordered.inOrder_receive (h : s.Ordered format) {data : Config} {rest : List Frame}
    (hnext : nextText s.wire.inbox = some (data, rest)) {message : RealtimeMessage}
    (hparse : parseMessage format data = .ok message) :
    messages format RealtimeMessageType.isFinal s.wire.sent =
      ((s.handed ++ [message]).filter (·.type.isFinal)).map .ok ++
        messages format RealtimeMessageType.isFinal rest := by
  rw [h.inOrder, messages_of_nextText hnext, messages_text, List.filter_append, List.map_append,
    List.filter_singleton, type_of_parseMessage hparse]
  split
  case isTrue hfinal => simp [hparse, hfinal]
  case isFalse hother => simp [hother]

theorem receive_of_readable {data : Config} {rest : List Frame} {message : RealtimeMessage}
    (hnext : nextText s.wire.inbox = some (data, rest))
    (hparse : parseMessage format data = .ok message) :
    s.receive format =
      { s with
          wire := { s.wire with inbox := rest }
          iteration := .suspended
          handed := s.handed ++ [message] } := by
  simp only [AsyncRealtimeSession.receive, hnext, hparse]

theorem receive_of_unreadable {data : Config} {rest : List Frame} {error : ParseError}
    (hnext : nextText s.wire.inbox = some (data, rest))
    (hparse : parseMessage format data = .error error) :
    s.receive format =
      { s with wire := { s.wire with inbox := rest }, iteration := .raised } := by
  simp only [AsyncRealtimeSession.receive, hnext, hparse]

theorem receive_of_none (hnext : nextText s.wire.inbox = none) :
    s.receive format =
      { s with
          wire := { s.wire with inbox := [] }
          iteration := if s.wire.connection = .open then .receiving else .ended } := by
  simp only [AsyncRealtimeSession.receive, hnext]

theorem Ordered.receive (h : s.Ordered format)
    (htakes : ∀ data rest, nextText s.wire.inbox = some (data, rest) → s.Takes format data) :
    (s.receive format).Ordered format := by
  cases hnext : nextText s.wire.inbox with
  | none =>
      have hnone : ∀ types, messages format types s.wire.inbox = [] :=
        fun types => messages_of_no_nextText hnext
      rw [receive_of_none hnext]
      constructor
      case wire => exact h.wire.read (List.nil_suffix)
      case inOrder =>
        have hinOrder := h.inOrder
        rw [hnone] at hinOrder
        exact hinOrder
      case closed => exact h.closed
      case expects =>
        have hexpects := h.expects
        cases hcloser : s.closer with
        | notCalled => trivial
        | sending | draining =>
            rw [hcloser] at hexpects
            exact Eq.trans hexpects (statistics_of_messages_eq (hnone _))
        | closing _ | returned _ =>
            rw [hcloser] at hexpects
            exact ⟨hexpects.1, hexpects.2.1, Or.inr rfl⟩
        | failing | raised =>
            rw [hcloser] at hexpects
            exact hexpects.elim
  | some next =>
      obtain ⟨data, rest⟩ := next
      obtain ⟨hreadable, hkept⟩ := htakes data rest hnext
      have hsound := h.wire.read ((List.suffix_cons _ _).trans (suffix_of_nextText hnext))
      have hstatistics : s.closer.underWay = true →
          Sdk.statistics format s.wire.inbox = Sdk.statistics format rest := by
        intro hunderWay
        refine statistics_of_messages_eq ?_
        rw [messages_of_nextText hnext, messages_text_of_other (hkept hunderWay)]
      cases hparse : parseMessage format data with
      | ok message =>
          rw [receive_of_readable hnext hparse]
          refine ⟨hsound, h.inOrder_receive hnext hparse, h.closed, ?_⟩
          have hexpects := h.expects
          cases hcloser : s.closer with
          | notCalled => trivial
          | sending | draining =>
              rw [hcloser] at hexpects
              exact Eq.trans hexpects (hstatistics (by rw [hcloser]; rfl))
          | closing _ | returned _ =>
              rw [hcloser] at hexpects
              exact ⟨hexpects.1, hexpects.2.1, Or.inl rfl⟩
          | failing | raised =>
              rw [hcloser] at hexpects
              exact hexpects.elim
      | error error =>
          have hunread : ¬ ((messageType data).isFinal = true ∨ s.closer.called = true) := by
            intro hmust
            obtain ⟨message, hmessage⟩ := hreadable hmust
            rw [hparse] at hmessage
            cases hmessage
          obtain ⟨hother, huncalled⟩ := not_or.mp hunread
          rw [receive_of_unreadable hnext hparse]
          refine ⟨hsound, ?_, h.closed, ?_⟩
          · rw [h.inOrder, messages_of_nextText hnext,
              messages_text_of_other (Bool.eq_false_of_not_eq_true hother)]
          · cases hcloser : s.closer with
            | notCalled => trivial
            | _ =>
                rw [hcloser] at huncalled
                exact absurd rfl huncalled

theorem Ordered.drain (h : s.Ordered format) (hcloser : s.closer = .draining)
    (hunhurried : s.Unhurried format .drain) : (s.drain format).Ordered format := by
  have hexpects : Sdk.statistics format s.wire.sent = Sdk.statistics format s.wire.inbox := by
    have hexpects := h.expects
    rw [hcloser] at hexpects
    exact hexpects
  unfold AsyncRealtimeSession.drain
  split
  case h_1 hinbox =>
    split
    case isTrue => exact h
    case isFalse hconnection =>
      refine ⟨h.wire, h.inOrder, h.closed, ?_⟩
      refine ⟨?_, ?_, Or.inr ?_⟩
      · rw [hexpects, hinbox]
        rfl
      · cases hclosed : s.wire.connection with
        | «open» => exact absurd hclosed hconnection
        | closedByServer => exact Or.inr hclosed
        | closedByClient => exact h.closed hclosed
      · unfold NoFinals
        rw [hinbox]
        rfl
  case h_2 rest hinbox =>
    have hread : ({ s.wire with inbox := rest } : Wire).Sound :=
      h.wire.read (by rw [hinbox]; exact List.suffix_cons _ _)
    refine ⟨hread, ?_, h.closed, ?_⟩
    · rw [h.inOrder, hinbox, messages_binary]
    · unfold Expects
      rw [hcloser]
      rw [hinbox] at hexpects
      exact hexpects
  case h_3 data rest hinbox =>
    obtain ⟨hother, message, hmessage⟩ := hunhurried data rest hinbox
    have hsuffix : Frame.text data :: rest <:+ s.wire.inbox := by
      rw [hinbox]
    have hread := h.wire.read ((List.suffix_cons _ _).trans hsuffix)
    rw [hmessage]
    refine ⟨hread, ?_, h.closed, ?_⟩
    · rw [h.inOrder, hinbox, messages_text_of_other hother]
    · have htype := type_of_parseMessage hmessage
      dsimp only
      rw [htype]
      split
      case isTrue hend =>
        have hisEnd : (messageType data).isEnd = true := by simp [RealtimeMessageType.isEnd, hend]
        have hterminal := terminal_of_isEnd hisEnd
        obtain rfl := h.wire.rest_eq_nil hsuffix hterminal
        refine ⟨?_, Or.inl ?_, Or.inr rfl⟩
        · rw [hexpects, hinbox]
          unfold Sdk.statistics
          rw [messages_text_of_type hisEnd, hmessage]
          rfl
        · exact List.any_eq_true.mpr ⟨_, h.wire.known _ (hsuffix.subset (by simp)), hterminal⟩
      case isFalse hend =>
        show Sdk.statistics format s.wire.sent = Sdk.statistics format rest
        rw [hexpects, hinbox]
        refine statistics_of_messages_eq (messages_text_of_other ?_)
        simpa [RealtimeMessageType.isEnd] using hend

/-- Steps that change the call of `close` alone. -/
theorem Ordered.close (h : s.Ordered format) {closer : AsyncClose} (hexpects : s.Expects format closer) :
    ({ s with closer } : AsyncRealtimeSession).Ordered format :=
  ⟨h.wire, h.inOrder, h.closed, by cases closer <;> exact hexpects⟩

theorem Ordered.closed_returned (h : s.Ordered format) {result : Option RealtimeData}
    (hcloser : s.closer = .closing result) :
    ({ s with wire := s.wire.close, closer := .returned result } :
      AsyncRealtimeSession).Ordered format := by
  have hexpects := h.expects
  rw [hcloser] at hexpects
  obtain ⟨hstatistics, hfinal, hfinals⟩ := hexpects
  have hstays : s.wire.close.Final := by
    unfold Wire.close
    split
    case isTrue hopen =>
      obtain hlast | hclosed := hfinal
      · exact Or.inl hlast
      · rw [hopen] at hclosed
        cases hclosed
    case isFalse => exact hfinal
  have hsent : s.wire.close.sent = s.wire.sent := by unfold Wire.close; split <;> rfl
  have hinbox : s.wire.close.inbox = s.wire.inbox := by unfold Wire.close; split <;> rfl
  constructor
  case wire => exact h.wire.close
  case inOrder =>
    dsimp only
    rw [hsent, hinbox, h.inOrder]
  case closed => exact fun _ => hstays
  case expects =>
    refine ⟨?_, hstays, ?_⟩
    · dsimp only
      rw [hsent, hstatistics]
    · unfold NoFinals at hfinals ⊢
      dsimp only
      rwa [hinbox]

theorem Ordered.iterate (h : s.Ordered format)
    (htakes : ∀ data rest, nextText s.wire.inbox = some (data, rest) → s.Takes format data) :
    (s.next format .iterate).Ordered format := by
  unfold next
  dsimp only
  split
  case h_1 => exact h
  case h_2 hcloser _ =>
    refine h.iteration _ fun hover => ?_
    rw [hcloser] at hover
    cases hover
  case h_3 => exact h.receive htakes
  case h_6 => exact h.receive htakes
  -- without a connection a new iteration fails at once
  all_goals
    rename_i hnotReceiving hnotSuspended
    refine h.iteration _ fun _ hactive => ?_
    cases hiteration : s.iteration with
    | receiving => exact absurd hiteration hnotReceiving
    | suspended => exact absurd hiteration hnotSuspended
    | _ =>
        rw [hiteration] at hactive
        cases hactive

theorem Ordered.step (h : s.Ordered format) {action : AsyncAction}
    (hunhurried : s.Unhurried format action) : (s.next format action).Ordered format := by
  cases action with
  | arrive frame => exact h.arrive frame
  | serverCloses => exact h.serverCloses
  | iterate => exact h.iterate hunhurried
  | wake =>
      unfold next
      dsimp only
      split
      · exact h.receive hunhurried
      · exact h
  | leave =>
      unfold next
      dsimp only
      split
      · exact h.iteration _ fun hover _ _ => hunhurried hover
      · exact h
  | close =>
      unfold next
      dsimp only
      split
      · exact h.close hunhurried
      · exact h
  | sent =>
      unfold next
      dsimp only
      split
      case h_2 => exact h
      case h_1 hcloser =>
        have hexpects := h.expects
        rw [hcloser] at hexpects
        unfold Unhurried at hunhurried
        dsimp only at hunhurried
        split at hunhurried
        case isTrue hconnection =>
          rw [if_pos hconnection, if_neg hunhurried]
          exact h.close hexpects
        case isFalse hconnection =>
          rw [if_neg hconnection]
          refine h.close ⟨Eq.trans hexpects hunhurried.1, ?_, hunhurried.2⟩
          cases hclosed : s.wire.connection with
          | «open» => exact absurd hclosed hconnection
          | closedByServer => exact Or.inr hclosed
          | closedByClient => exact h.closed hclosed
  | drain =>
      unfold next
      dsimp only
      split
      case h_1 hcloser => exact h.drain hcloser hunhurried
      case h_2 => exact h
  | closed =>
      unfold next
      dsimp only
      split
      case h_1 result hcloser => exact h.closed_returned hcloser
      case h_2 hcloser =>
        have hexpects := h.expects
        rw [hcloser] at hexpects
        exact hexpects.elim
      case h_3 => exact h

end AsyncRealtimeSession

end Dalston.Realtime.Sdk
