import Dalston.Realtime.TerminalOnce

/-!
# The shutdown of a realtime engine

A signal starts the shutdown: the running flag is cleared, the engine leaves the
registry, its models are unloaded and the server is closed. The loop that serves
connections looks at the flag once a second and closes the server too. A new
connection is handled whatever the flag says, and nothing waits for a session.

## Implementation notes

Shutdown, serve loop and connections are separate tasks; a step is what one of
them does from one await to the next. A connection handler does not wait between
its checks and the first message of its session. What the parameters of a
connection are parsed to is left open. A closed server accepts no connections and
has closed those it had.
-/

namespace Dalston.Realtime

/-- What the path of a connection asks for. -/
inductive ConnectRequest
  | health
  | invalidPath
  | invalidParameter
  | session (sessionId : String) (streaming : Bool)

/-- Where `shutdown` stands. -/
inductive ShutdownPoint
  | notCalled
  | deregistering
  | unloading
  | stoppingMetrics
  | returned
  deriving DecidableEq

/-- A connection whose handler runs a session, or has run one. -/
structure EngineConnection where
  sessionId : String
  session : HandlerSession
  /-- The session was started after the shutdown had begun. -/
  late : Bool
  /-- The handler has returned. -/
  finished : Bool
  /-- The server has closed the connection. -/
  closed : Bool

structure RealtimeEngine where
  maxSessions : Nat
  hasManager : Bool
  running : Bool
  shutdown : ShutdownPoint
  /-- `shutdown` of the model manager has been called. -/
  unloaded : Bool
  /-- The loop of `run` has been left. -/
  loopLeft : Bool
  accepting : Bool
  sessions : List String
  connections : Nat → Option EngineConnection

namespace RealtimeEngine

def setConnection (s : RealtimeEngine) (c : Nat) (connection : EngineConnection) : RealtimeEngine :=
  { s with connections := Function.update s.connections c (some connection) }

/-- `_handle_connection` up to its first await; `ok` tells whether the first message is taken. -/
def connect (s : RealtimeEngine) (c : Nat) (request : ConnectRequest) (ok : Bool) :
    RealtimeEngine :=
  match request with
  | .health | .invalidPath | .invalidParameter => s
  | .session sessionId streaming =>
      if s.maxSessions ≤ s.sessions.length then s
      else
        { s with
            sessions := if sessionId ∈ s.sessions then s.sessions else sessionId :: s.sessions
        }.setConnection c
          { sessionId, session := .start streaming ok, late := !s.running, finished := false,
            closed := false }

/-- The session has returned: it is no longer tracked, and the server closes the connection. -/
def finish (s : RealtimeEngine) (c : Nat) (connection : EngineConnection) : RealtimeEngine :=
  { s with sessions := s.sessions.erase connection.sessionId }.setConnection c
    { connection with finished := true, closed := true }

/-- `self._server.close()`. -/
def closeServer (s : RealtimeEngine) : RealtimeEngine :=
  { s with
      accepting := false
      connections := fun c => (s.connections c).map fun connection =>
        { connection with closed := true } }

/-- `shutdown` up to the answer of the registry. -/
def beginShutdown (s : RealtimeEngine) : RealtimeEngine :=
  if s.running then { s with running := false, shutdown := .deregistering } else s

/-- The registry has answered or has raised. -/
def deregistered (s : RealtimeEngine) : RealtimeEngine :=
  if s.hasManager then { s with unloaded := true, shutdown := .unloading }
  else { s with shutdown := .stoppingMetrics }

end RealtimeEngine

/-- The action needs the connection to take a message. -/
def SessionAction.delivers : SessionAction → Bool
  | .report _ ok | .decode ok | .evaluate _ _ ok | .enforce ok | .terminate ok | .raised ok
  | .sendEnd ok => ok
  | .stopDecoding flush => flush.getD false
  | _ => false

inductive EngineAction
  | connect (c : Nat) (request : ConnectRequest) (ok : Bool)
  /-- A task of the session goes on. -/
  | session (c : Nat) (action : SessionAction)
  | finish (c : Nat)
  /-- A signal calls `shutdown`. -/
  | shutdown
  | deregistered
  /-- The models are unloaded, or the model manager raises. -/
  | unloaded (raised : Bool)
  /-- The metrics server has stopped, and the server is closed. -/
  | metricsStopped
  /-- The serve loop sees the cleared flag and leaves the server's context. -/
  | loopExits

inductive EngineStep (config : AudioConfig) :
    RealtimeEngine → EngineAction → RealtimeEngine → Prop
  | connect {s : RealtimeEngine} (c : Nat) (request : ConnectRequest) (ok : Bool) :
      s.accepting = true → s.connections c = none →
      EngineStep config s (.connect c request ok) (s.connect c request ok)
  | session {s : RealtimeEngine} (c : Nat) (connection : EngineConnection) (action : SessionAction)
      (session' : HandlerSession) :
      s.connections c = some connection → SessionStep config connection.session action session' →
      (connection.closed = true → action.delivers = false) →
      EngineStep config s (.session c action)
        (s.setConnection c { connection with session := session' })
  | finish {s : RealtimeEngine} (c : Nat) (connection : EngineConnection) :
      s.connections c = some connection → connection.session.handler = .returned →
      connection.finished = false → EngineStep config s (.finish c) (s.finish c connection)
  | shutdown {s : RealtimeEngine} : EngineStep config s .shutdown s.beginShutdown
  | deregistered {s : RealtimeEngine} :
      s.shutdown = .deregistering → EngineStep config s .deregistered s.deregistered
  | unloaded {s : RealtimeEngine} (raised : Bool) :
      s.shutdown = .unloading → EngineStep config s (.unloaded raised)
        { s with shutdown := if raised then .returned else .stoppingMetrics }
  | metricsStopped {s : RealtimeEngine} :
      s.shutdown = .stoppingMetrics →
      EngineStep config s .metricsStopped { s.closeServer with shutdown := .returned }
  | loopExits {s : RealtimeEngine} :
      s.loopLeft = false → s.running = false →
      EngineStep config s .loopExits { s.closeServer with loopLeft := true }

namespace RealtimeEngine

/-- No session is running. -/
def Idle (s : RealtimeEngine) : Prop :=
  ∀ c connection, s.connections c = some connection → connection.session.handler = .returned

/-- No session starts after the shutdown has begun, no models are unloaded while a session is
running, and a connection that the server closes has had its terminal message. -/
structure Graceful (s : RealtimeEngine) : Prop where
  noneLate : ∀ c connection, s.connections c = some connection → connection.late = false
  unloaded : s.unloaded = true → s.Idle
  ended : ∀ c connection, s.connections c = some connection → connection.closed = true →
    connection.session.failed = false → (connection.session.sent.filter (·.terminal)).length = 1

/-- No session is asked for after the shutdown has begun, none is running when the shutdown comes
to the models or the server is closed, and the monitor leaves the ends of sessions alone. -/
def Awaited (config : AudioConfig) (s : RealtimeEngine) : EngineAction → Prop
  | .connect _ (.session _ _) _ => s.running = true
  | .session c action => ∀ connection, s.connections c = some connection →
      Undisturbed config connection.session action
  | .deregistered => s.hasManager = true → s.Idle
  | .metricsStopped | .loopExits => s.Idle
  | _ => True

/-- An engine that serves and has had no connection. -/
structure Ready (s : RealtimeEngine) : Prop where
  running : s.running = true
  notCalled : s.shutdown = .notCalled
  loaded : s.unloaded = false
  empty : ∀ c, s.connections c = none

section Fields

variable (s : RealtimeEngine) (c c' : Nat) (connection : EngineConnection)

theorem connections_setConnection : (s.setConnection c connection).connections c' =
    if c' = c then some connection else s.connections c' := by
  simp [setConnection, Function.update_apply]

theorem connections_closeServer_eq_some_iff : s.closeServer.connections c = some connection ↔
    ∃ before, s.connections c = some before ∧ { before with closed := true } = connection := by
  simp [closeServer, Option.map_eq_some_iff]

end Fields

/-- A session that has returned does nothing more. -/
theorem returned_of_step {config : AudioConfig} {session session' : HandlerSession}
    {action : SessionAction} (h : session.Settled) (hreturned : session.handler = .returned)
    (hstep : SessionStep config session action session') : session'.handler = .returned := by
  obtain ⟨hmonitoring, hevaluating, hdecoding⟩ := h.alone (Or.inr (Or.inr hreturned))
  cases hstep with
  | receive hpoint | receiveEnd hpoint | leave hpoint | sendEnd _ hpoint | endDone hpoint
  | stopDecoding _ hpoint | stopMonitor hpoint =>
      rw [hreturned] at hpoint
      cases hpoint
  | received _ hpoint | processed _ hpoint | discarded _ hpoint | finishMessage hpoint =>
      rw [hreturned] at hpoint
      cases hpoint
  | report message ok hpoint =>
      rw [hreturned] at hpoint
      obtain ⟨hpoint, -⟩ | ⟨_, hpoint⟩ := hpoint <;> cases hpoint
  | raised ok hpoint =>
      rw [hreturned] at hpoint
      obtain hpoint | ⟨hpoint, -⟩ := hpoint <;> cases hpoint
  | decode ok hdecodes =>
      rw [hdecoding] at hdecodes
      cases hdecodes
  | evaluate byHandler now ok _ _ htask =>
      cases byHandler with
      | true =>
          rw [hreturned] at htask
          cases htask
      | false =>
          rw [hmonitoring] at htask
          cases htask
  | enforce _ hcurrent | terminate _ hcurrent | closed hcurrent =>
      rw [hevaluating] at hcurrent
      cases hcurrent
  | exitMonitor hmonitors =>
      rw [hmonitoring] at hmonitors
      cases hmonitors

/-- Sessions are settled, none was started late, a closed connection is one whose session has
returned, and once the models are unloaded nothing runs or will run. -/
structure Prepared (s : RealtimeEngine) : Prop where
  settled : ∀ c connection, s.connections c = some connection → connection.session.Settled
  onTime : ∀ c connection, s.connections c = some connection → connection.late = false
  closed : ∀ c connection, s.connections c = some connection → connection.closed = true →
    connection.session.handler = .returned
  begun : s.shutdown ≠ .notCalled → s.running = false
  unloaded : s.unloaded = true → s.running = false ∧ s.Idle

variable {config : AudioConfig} {s s' : RealtimeEngine} {c : Nat} {action : EngineAction}

theorem Ready.prepared (h : s.Ready) : s.Prepared where
  settled c connection hc := by
    rw [h.empty] at hc
    cases hc
  onTime c connection hc := by
    rw [h.empty] at hc
    cases hc
  closed c connection hc := by
    rw [h.empty] at hc
    cases hc
  begun hcalled := absurd h.notCalled hcalled
  unloaded hunloaded := by
    rw [h.loaded] at hunloaded
    cases hunloaded

/-- A connection of which everything that is asked holds takes the place of another, or is new
while the engine runs. -/
theorem Prepared.setConnection {connection : EngineConnection} (h : s.Prepared)
    (hsettled : connection.session.Settled) (honTime : connection.late = false)
    (hclosed : connection.closed = true → connection.session.handler = .returned)
    (hidle : s.running = false → s.Idle → connection.session.handler = .returned) :
    (s.setConnection c connection).Prepared := by
  constructor
  case settled =>
    intro c' connection' hc
    rw [connections_setConnection] at hc
    split at hc
    · obtain rfl := Option.some.inj hc
      exact hsettled
    · exact h.settled c' connection' hc
  case onTime =>
    intro c' connection' hc
    rw [connections_setConnection] at hc
    split at hc
    · obtain rfl := Option.some.inj hc
      exact honTime
    · exact h.onTime c' connection' hc
  case closed =>
    intro c' connection' hc
    rw [connections_setConnection] at hc
    split at hc
    · obtain rfl := Option.some.inj hc
      exact hclosed
    · exact h.closed c' connection' hc
  case begun => exact h.begun
  case unloaded =>
    intro hunloaded
    obtain ⟨hrunning, hbefore⟩ := h.unloaded hunloaded
    refine ⟨hrunning, fun c' connection' hc => ?_⟩
    rw [connections_setConnection] at hc
    split at hc
    · obtain rfl := Option.some.inj hc
      exact hidle hrunning hbefore
    · exact hbefore c' connection' hc

theorem Prepared.sessions (h : s.Prepared) (sessions : List String) :
    ({ s with sessions := sessions } : RealtimeEngine).Prepared :=
  ⟨h.settled, h.onTime, h.closed, h.begun, h.unloaded⟩

theorem Prepared.connect {request : ConnectRequest} {ok : Bool} (h : s.Prepared)
    (hawaited : s.Awaited config (.connect c request ok)) : (s.connect c request ok).Prepared := by
  cases request with
  | health | invalidPath | invalidParameter => exact h
  | session sessionId streaming =>
      have hrunning : s.running = true := hawaited
      unfold RealtimeEngine.connect
      dsimp only
      split
      · exact h
      · refine (h.sessions _).setConnection (HandlerSession.Settled.start streaming ok) ?_ (by simp) ?_
        · rw [hrunning]
          rfl
        · intro hstopped
          rw [hrunning] at hstopped
          cases hstopped

theorem Prepared.closeServer (h : s.Prepared) (hidle : s.Idle) : s.closeServer.Prepared := by
  constructor
  case settled =>
    intro c connection hc
    obtain ⟨before, hbefore, rfl⟩ := (connections_closeServer_eq_some_iff s c connection).mp hc
    exact h.settled c before hbefore
  case onTime =>
    intro c connection hc
    obtain ⟨before, hbefore, rfl⟩ := (connections_closeServer_eq_some_iff s c connection).mp hc
    exact h.onTime c before hbefore
  case closed =>
    intro c connection hc _
    obtain ⟨before, hbefore, rfl⟩ := (connections_closeServer_eq_some_iff s c connection).mp hc
    exact hidle c before hbefore
  case begun => exact h.begun
  case unloaded =>
    intro hunloaded
    refine ⟨(h.unloaded hunloaded).1, fun c connection hc => ?_⟩
    obtain ⟨before, hbefore, rfl⟩ := (connections_closeServer_eq_some_iff s c connection).mp hc
    exact hidle c before hbefore

theorem Prepared.step (h : s.Prepared) (hstep : EngineStep config s action s')
    (hawaited : s.Awaited config action) : s'.Prepared := by
  cases hstep with
  | connect c request ok => exact h.connect hawaited
  | session c connection action session' hc hstep =>
      have hsettled := h.settled c connection hc
      have hreturned : connection.session.handler = .returned → session'.handler = .returned :=
        fun hreturned => returned_of_step hsettled hreturned hstep
      refine h.setConnection (hsettled.step hstep (hawaited connection hc))
        (h.onTime c connection hc) ?_ ?_
      · exact fun hclosed => hreturned (h.closed c connection hc hclosed)
      · exact fun _ hidle => hreturned (hidle c connection hc)
  | finish c connection hc hreturned =>
      exact (h.sessions _).setConnection (h.settled c connection hc) (h.onTime c connection hc)
        (fun _ => hreturned) fun _ _ => hreturned
  | shutdown =>
      unfold beginShutdown
      split
      · exact ⟨h.settled, h.onTime, h.closed, fun _ => rfl,
          fun hunloaded => ⟨rfl, (h.unloaded hunloaded).2⟩⟩
      · exact h
  | deregistered hpoint =>
      have hrunning : s.running = false := h.begun (by rw [hpoint]; decide)
      unfold deregistered
      split
      case isTrue hmanager =>
        exact ⟨h.settled, h.onTime, h.closed, fun _ => hrunning,
          fun _ => ⟨hrunning, hawaited hmanager⟩⟩
      case isFalse => exact ⟨h.settled, h.onTime, h.closed, fun _ => hrunning, h.unloaded⟩
  | unloaded raised hpoint =>
      have hrunning : s.running = false := h.begun (by rw [hpoint]; decide)
      exact ⟨h.settled, h.onTime, h.closed, fun _ => hrunning, h.unloaded⟩
  | metricsStopped hpoint =>
      have hrunning : s.running = false := h.begun (by rw [hpoint]; decide)
      have hclosed := h.closeServer hawaited
      exact ⟨hclosed.settled, hclosed.onTime, hclosed.closed, fun _ => hrunning, hclosed.unloaded⟩
  | loopExits hleft hrunning =>
      have hclosed := h.closeServer hawaited
      exact ⟨hclosed.settled, hclosed.onTime, hclosed.closed, fun _ => hrunning, hclosed.unloaded⟩

theorem Prepared.graceful (h : s.Prepared) : s.Graceful where
  noneLate := h.onTime
  unloaded hunloaded := (h.unloaded hunloaded).2
  ended c connection hc hclosed hok :=
    (h.settled c connection hc).terminalOnce.exactlyOne (h.closed c connection hc hclosed) hok

/-- A shutdown that comes to no running session is graceful. -/
theorem graceful_of_awaited (config : AudioConfig) {s₀ : RealtimeEngine} (h₀ : s₀.Ready)
    (run : Foundation.ActionRun (EngineStep config) (Awaited config) s₀ s) : s.Graceful :=
  (run.invariant h₀.prepared fun _ _ _ hs hstep hawaited => hs.step hstep hawaited).graceful

section Samples

/-- An engine with room for two sessions. -/
def ready : RealtimeEngine where
  maxSessions := 2
  hasManager := true
  running := true
  shutdown := .notCalled
  unloaded := false
  loopLeft := false
  accepting := true
  sessions := []
  connections _ := none

theorem ready_ready : ready.Ready := ⟨rfl, rfl, rfl, fun _ => rfl⟩

/-- A session is running, and the engine has been told to shut down. -/
def interrupted : RealtimeEngine :=
  (ready.connect 0 (.session "sess_a" false) true).beginShutdown

/-- The client leaves, the session sends its last message, and the engine is shut down. -/
theorem graceful_sample : ∃ s : RealtimeEngine, s.shutdown = .unloading ∧ s.Graceful := by
  refine ⟨_, ?_, graceful_of_awaited resamplingConfig ready_ready <|
    .step (.step (.step (.step (.step (.step (.step (.step (.step (.refl ready)
      (.connect 0 (.session "sess_a" false) true rfl rfl) rfl)
      (.session 0 _ .leave _ rfl (.leave rfl) (by decide)) fun _ _ => trivial)
      (.session 0 _ (.stopDecoding none) _ rfl (.stopDecoding none rfl (by decide)) (by decide))
        fun _ _ => trivial)
      (.session 0 _ .stopMonitor _ rfl (.stopMonitor rfl) (by decide)) ?_)
      (.session 0 _ (.sendEnd true) _ rfl (.sendEnd true rfl) (by decide)) fun _ _ => trivial)
      (.session 0 _ .endDone _ rfl (.endDone rfl) (by decide)) fun _ _ => trivial)
      (.finish 0 _ rfl rfl rfl) trivial)
      .shutdown trivial)
      (.deregistered rfl) ?_⟩
  · rfl
  · intro connection hc current hcurrent
    cases hc
    cases hcurrent
  · intro _ c connection hc
    by_cases heq : c = 0
    · subst heq
      cases hc
      rfl
    · simp [RealtimeEngine.beginShutdown, RealtimeEngine.finish, RealtimeEngine.connect,
        setConnection, ready, heq] at hc

/-- The models are unloaded under a running session. -/
theorem unloaded_midway :
    ¬∀ (config : AudioConfig) (s₀ s : RealtimeEngine), s₀.Ready →
      Foundation.ActionRun (EngineStep config) (fun _ _ => True) s₀ s → s.Graceful := by
  intro hclaim
  have hrun : Foundation.ActionRun (EngineStep resamplingConfig) (fun _ _ => True) ready
      interrupted.deregistered :=
    .step (.step (.step (.refl ready) (.connect 0 (.session "sess_a" false) true rfl rfl) trivial)
      .shutdown trivial) (.deregistered rfl) trivial
  have hidle := (hclaim resamplingConfig ready _ ready_ready hrun).unloaded rfl
  have hreturned := hidle 0 _ rfl
  cases hreturned

end Samples

end RealtimeEngine

end Dalston.Realtime
