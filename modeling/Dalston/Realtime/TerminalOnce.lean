import Dalston.Realtime.LagBudget
import Dalston.Realtime.TerminalMessages

/-!
# One terminal message

What was sent is open before a terminal message and closed after it. A session that
is not disturbed closes once: by the handler, after which nothing is left that sends,
or by a termination, after which only errors go out.
-/

namespace Dalston.Realtime

section Messages

/-- No terminal message has been sent. -/
def Unended (sent : List MessageKind) : Prop := ∀ message ∈ sent, message.terminal = false

/-- One terminal message has been sent, and only errors after it. -/
def Closed (sent : List MessageKind) : Prop :=
  ∃ before last after, sent = before ++ last :: after ∧ last.terminal = true ∧
    Unended before ∧ ∀ message ∈ after, message = .error

variable {sent : List MessageKind} {message : MessageKind}

theorem Unended.append (h : Unended sent) (hm : message.terminal = false) :
    Unended (sent ++ [message]) := by
  intro m hmem
  rcases List.mem_append.mp hmem with hmem | hmem
  · exact h m hmem
  · rw [List.mem_singleton.mp hmem]
    exact hm

theorem Unended.close (h : Unended sent) (hm : message.terminal = true) :
    Closed (sent ++ [message]) :=
  ⟨sent, message, [], rfl, hm, h, by simp⟩

theorem Closed.append_error (h : Closed sent) : Closed (sent ++ [.error]) := by
  obtain ⟨before, last, after, rfl, hlast, hbefore, hafter⟩ := h
  refine ⟨before, last, after ++ [.error], by simp, hlast, hbefore, ?_⟩
  intro m hmem
  rcases List.mem_append.mp hmem with hmem | hmem
  · exact hafter m hmem
  · exact List.mem_singleton.mp hmem

theorem Closed.not_unended (h : Closed sent) : ¬ Unended sent := by
  obtain ⟨before, last, after, rfl, hlast, _, _⟩ := h
  intro hopen
  exact absurd (hlast.symm.trans (hopen last (by simp))) Bool.noConfusion

theorem Unended.filter_terminal (h : Unended sent) : sent.filter (·.terminal) = [] := by
  rw [List.filter_eq_nil_iff]
  intro m hmem
  simp [h m hmem]

theorem Closed.filter_terminal (h : Closed sent) :
    (sent.filter (·.terminal)).length = 1 := by
  obtain ⟨before, last, after, rfl, hlast, hbefore, hafter⟩ := h
  have hrest : after.filter (·.terminal) = [] := by
    apply Unended.filter_terminal
    intro m hmem
    rw [hafter m hmem]
    rfl
  rw [List.filter_append, hbefore.filter_terminal, List.filter_cons_of_pos hlast, hrest]
  rfl

/-- The terminal message of a closed record is the one that a split of it shows. -/
theorem Closed.after (h : Closed sent) {before after : List MessageKind}
    {last : MessageKind} (hsplit : sent = before ++ last :: after)
    (hlast : last.terminal = true) : ∀ m ∈ after, m = .error := by
  obtain ⟨before', last', after', hsent, _, hbefore', hafter'⟩ := h
  rw [hsent] at hsplit
  intro m hmem
  rcases List.append_eq_append_iff.mp hsplit with ⟨more, hmore, hrest⟩ | ⟨more, hmore, hrest⟩
  · cases more with
    | nil =>
        simp only [List.nil_append, List.cons.injEq] at hrest
        exact hafter' m (hrest.2 ▸ hmem)
    | cons first more =>
        simp only [List.cons_append, List.cons.injEq] at hrest
        apply hafter' m
        rw [hrest.2]
        exact List.mem_append_right _ (List.mem_cons_of_mem _ hmem)
  · cases more with
    | nil =>
        simp only [List.nil_append, List.cons.injEq] at hrest
        exact hafter' m (hrest.2 ▸ hmem)
    | cons first more =>
        simp only [List.cons_append, List.cons.injEq] at hrest
        have := hbefore' last (by simp [hmore, hrest.1])
        exact absurd (hlast.symm.trans this) Bool.noConfusion

end Messages

namespace LagSession

variable {config : AudioConfig} {lag now : Rat} {s : LagSession}

theorem warnOfLag_flags :
    (s.warnOfLag config lag now).ended = s.ended ∧
      (s.warnOfLag config lag now).lagTerminated = s.lagTerminated := by
  unfold warnOfLag
  split <;> exact ⟨rfl, rfl⟩

/-- The hard limit ends a session only if it is exceeded, and then both flags are set. -/
theorem enforceHardLimit_flags (config : AudioConfig) (lag now : Rat) (s : LagSession) :
    ((s.enforceHardLimit config lag now).ended = s.ended ∧
      (s.enforceHardLimit config lag now).lagTerminated = s.lagTerminated) ∨
    (s.Exceeds config lag now ∧ s.ended = false ∧
      (s.enforceHardLimit config lag now).ended = true ∧
      (s.enforceHardLimit config lag now).lagTerminated = true) := by
  unfold enforceHardLimit
  split
  case isTrue => exact Or.inl ⟨rfl, rfl⟩
  case isFalse hhard =>
    cases hsince : s.lagHardExceededSince with
    | none => exact Or.inl ⟨rfl, rfl⟩
    | some since =>
        simp only
        split
        case isTrue => exact Or.inl ⟨rfl, rfl⟩
        case isFalse hgrace =>
          unfold terminateForLag
          cases hended : s.ended with
          | true => exact Or.inl ⟨hended, rfl⟩
          | false =>
              exact Or.inr ⟨⟨hhard, since, hsince, hgrace⟩, rfl, rfl, rfl⟩

theorem recordReceivedAudio_flags {bytes : Nat} :
    (s.recordReceivedAudio config bytes).ended = s.ended ∧
      (s.recordReceivedAudio config bytes).lagTerminated = s.lagTerminated := ⟨rfl, rfl⟩

theorem recordProcessedAudio_flags {seconds : Rat} :
    (s.recordProcessedAudio seconds).ended = s.ended ∧
      (s.recordProcessedAudio seconds).lagTerminated = s.lagTerminated := by
  unfold recordProcessedAudio
  split <;> exact ⟨rfl, rfl⟩

theorem recordDiscardedAudio_flags {seconds : Rat} :
    (s.recordDiscardedAudio seconds).ended = s.ended ∧
      (s.recordDiscardedAudio seconds).lagTerminated = s.lagTerminated := by
  unfold recordDiscardedAudio
  split <;> exact ⟨rfl, rfl⟩

end LagSession

namespace HandlerSession

/-- The handler is the one that ends the session, and nothing else sends any more. -/
def EndedByHandler (s : HandlerSession) : Prop :=
  s.decoding = false ∧ ((∃ final, s.handler = .endSent final) ∨
    s.lag.ended = true ∧ (s.handler = .returned ∨
      s.streaming = false ∧ (s.handler = .leaving ∨ s.handler = .drained)))

/-- A termination is under way that has not sent its last message. -/
def Erroring (s : HandlerSession) : Prop :=
  ∃ evaluation, s.evaluating = some { evaluation, point := .erroring }

/-- The invariant of a session that is not disturbed. -/
structure Settled (s : HandlerSession) : Prop where
  sent : Unended s.sent ∨ Closed s.sent
  flags : s.lag.lagTerminated = true → s.lag.ended = true
  erroring : s.Erroring → s.lag.lagTerminated = true ∧ Unended s.sent
  terminating : ∀ evaluation, s.evaluating = some { evaluation, point := .terminating } →
    s.lag.lagTerminated = true
  byHandler : Closed s.sent → s.lag.lagTerminated = false → s.EndedByHandler
  answered : s.failed = false →
    (s.lag.ended = true ∨ ∃ final, s.handler = .endSent final) → Closed s.sent ∨ s.Erroring
  alone : s.handler = .ending true ∨ s.handler = .endSent true ∨ s.handler = .returned →
    s.monitoring = false ∧ s.evaluating = none ∧ s.decoding = false
  drained : s.handler = .drained → s.decoding = false
  decoding : s.decoding = true → s.streaming = true
  ending : s.handler = .ending false ∨ s.handler = .endSent false → s.streaming = false
  returned : s.handler = .returned → s.lag.ended = true

section Send

variable (s : HandlerSession) (message : MessageKind) (ok : Bool)

@[simp] theorem send_lag : (s.send message ok).lag = s.lag := by
  unfold HandlerSession.send
  split
  · rfl
  · split <;> rfl

@[simp] theorem send_handler : (s.send message ok).handler = s.handler := by
  unfold HandlerSession.send
  split
  · rfl
  · split <;> rfl

@[simp] theorem send_evaluating : (s.send message ok).evaluating = s.evaluating := by
  unfold HandlerSession.send
  split
  · rfl
  · split <;> rfl

@[simp] theorem send_decoding : (s.send message ok).decoding = s.decoding := by
  unfold HandlerSession.send
  split
  · rfl
  · split <;> rfl

end Send

namespace Settled

variable {config : AudioConfig} {s : HandlerSession}

theorem terminalOnce (h : s.Settled) : TerminalOnce s where
  atMostOne := by
    rcases h.sent with hopen | hclosed
    · rw [hopen.filter_terminal]
      exact Nat.zero_le 1
    · exact hclosed.filter_terminal.le
  exactlyOne := by
    intro hreturned hok
    rcases h.answered hok (Or.inl (h.returned hreturned)) with hclosed | ⟨evaluation, herroring⟩
    · exact hclosed.filter_terminal
    · rw [(h.alone (Or.inr (Or.inr hreturned))).2.1] at herroring
      cases herroring
  nothingAfter := by
    intro before last after hsplit hlast message hmem
    rcases h.sent with hopen | hclosed
    · have := hopen last (by simp [hsplit])
      exact absurd (hlast.symm.trans this) Bool.noConfusion
    · rw [hclosed.after hsplit hlast message hmem]
      decide

/-- A message that ends no session can be sent while none has, by those a termination silences. -/
theorem send (h : s.Settled) (message : MessageKind) (ok : Bool)
    (hmessage : message.terminal = false)
    (hfree : message = .error ∨ (Closed s.sent → s.lag.lagTerminated = true)) :
    (s.send message ok).Settled := by
  unfold HandlerSession.send
  split
  case isTrue => exact h
  case isFalse hloud =>
    cases ok with
    | false =>
        exact { h with
          answered := fun hok => absurd hok (by simp) }
    | true =>
        have hclosed : Closed s.sent → Closed (s.sent ++ [message]) := by
          intro hclosed
          rcases hfree with rfl | hsilent
          · exact hclosed.append_error
          · have hexempt : message = .error := by
              have hterminated := hsilent hclosed
              rw [hterminated] at hloud
              cases message <;> simp_all [MessageKind.exempt, MessageKind.terminal]
            exact hexempt ▸ hclosed.append_error
        have hopen : Closed (s.sent ++ [message]) → Closed s.sent := by
          intro hclosed'
          rcases h.sent with hopen | hclosed
          · exact absurd (hopen.append hmessage) hclosed'.not_unended
          · exact hclosed
        exact { h with
          sent := h.sent.imp (·.append hmessage) hclosed
          erroring := fun herroring =>
            ⟨(h.erroring herroring).1, (h.erroring herroring).2.append hmessage⟩
          byHandler := fun hclosed hnot => h.byHandler (hopen hclosed) hnot
          answered := fun hok hended => (h.answered hok hended).imp hclosed id }

theorem start (streaming ok : Bool) : (HandlerSession.start streaming ok).Settled := by
  have hempty : Unended [] := fun _ hmem => absurd hmem List.not_mem_nil
  apply send
  case hmessage => rfl
  case hfree => exact Or.inr fun hclosed => absurd hempty hclosed.not_unended
  constructor
  case sent => exact Or.inl hempty
  case erroring => exact fun ⟨_, herroring⟩ => nomatch herroring
  case byHandler => exact fun hclosed => absurd hempty hclosed.not_unended
  case decoding => exact id
  all_goals simp [LagSession.fresh]

/-- Before the handler has sent its end message, only a termination can have closed the session. -/
theorem silent (h : s.Settled) (hhandler : s.handler = .receiving ∨ s.handler = .handling ∨
    (∃ final, s.handler = .ending final) ∨ s.decoding = true) :
    Closed s.sent → s.lag.lagTerminated = true := by
  intro hclosed
  by_contra hnot
  obtain ⟨hdecoding, hpoints⟩ := h.byHandler hclosed (by simpa using hnot)
  rcases hhandler with hpoint | hpoint | ⟨final, hpoint⟩ | hpoint
  · rw [hpoint] at hpoints
    simp at hpoints
  · rw [hpoint] at hpoints
    simp at hpoints
  · rw [hpoint] at hpoints
    simp at hpoints
  · rw [hpoint] at hdecoding
    cases hdecoding

/-- The handler goes to a point at which nothing is claimed of it. -/
theorem goTo (h : s.Settled) {point : HandlerPoint}
    (hpoint : point = .receiving ∨ point = .handling ∨ point = .leaving)
    (hfree : Closed s.sent → s.lag.lagTerminated = true) : (s.goTo point).Settled := by
  have hnot : point ≠ .returned ∧ point ≠ .drained ∧ (∀ final, point ≠ .ending final) ∧
      ∀ final, point ≠ .endSent final := by
    rcases hpoint with rfl | rfl | rfl <;> simp
  exact { h with
    byHandler := fun hclosed hterminated =>
      absurd (hterminated.symm.trans (hfree hclosed)) Bool.noConfusion
    answered := fun hok hended => h.answered hok <| hended.elim Or.inl fun ⟨final, hpoint⟩ =>
      absurd hpoint (hnot.2.2.2 final)
    alone := fun hpoint => by
      rcases hpoint with hpoint | hpoint | hpoint
      · exact absurd hpoint (hnot.2.2.1 true)
      · exact absurd hpoint (hnot.2.2.2 true)
      · exact absurd hpoint hnot.1
    drained := fun hpoint => absurd hpoint hnot.2.1
    ending := fun hpoint => hpoint.elim (fun hpoint => absurd hpoint (hnot.2.2.1 false))
      fun hpoint => absurd hpoint (hnot.2.2.2 false)
    returned := fun hpoint => absurd hpoint hnot.1 }

/-- Accounts can change as long as the flags stay. -/
theorem withLag (h : s.Settled) (lag : LagSession)
    (hflags : lag.ended = s.lag.ended ∧ lag.lagTerminated = s.lag.lagTerminated) :
    (s.withLag lag).Settled := by
  obtain ⟨hended, hterminated⟩ := hflags
  exact { h with
    flags := fun hterm => hended.trans (h.flags (hterminated ▸ hterm))
    erroring := fun herroring =>
      ⟨hterminated.trans (h.erroring herroring).1, (h.erroring herroring).2⟩
    terminating := fun evaluation hevaluation =>
      hterminated.trans (h.terminating evaluation hevaluation)
    byHandler := fun hclosed hterm => by
      have hby := h.byHandler hclosed (hterminated ▸ hterm)
      unfold EndedByHandler at hby ⊢
      rw [← hended] at hby
      exact hby
    answered := fun hok hend => h.answered hok (hend.imp_left fun hend => hended ▸ hend)
    returned := fun hpoint => hended.trans (h.returned hpoint) }

/-- An evaluation that does not terminate gives the lock back. -/
theorem release (h : s.Settled) (hquiet : ¬ s.Erroring) :
    ({ s with evaluating := none } : HandlerSession).Settled :=
  { h with
    erroring := fun ⟨_, herroring⟩ => by cases herroring
    terminating := fun _ hevaluation => by cases hevaluation
    answered := fun hok hend => Or.inl <| (h.answered hok hend).resolve_right hquiet
    alone := fun hpoint => ⟨(h.alone hpoint).1, rfl, (h.alone hpoint).2.2⟩ }

/-- An evaluation waits in the send of its warning. -/
theorem hold (h : s.Settled) (hquiet : ¬ s.Erroring) {evaluation : Evaluation}
    (hhandler : s.handler ≠ .ending true ∧ s.handler ≠ .endSent true ∧ s.handler ≠ .returned) :
    ({ s with evaluating := some { evaluation, point := .warned } } : HandlerSession).Settled :=
  { h with
    erroring := fun ⟨_, herroring⟩ => by cases herroring
    terminating := fun _ hevaluation => by cases hevaluation
    answered := fun hok hend => Or.inl <| (h.answered hok hend).resolve_right hquiet
    alone := fun hpoint => by
      rcases hpoint with hpoint | hpoint | hpoint
      · exact absurd hpoint hhandler.1
      · exact absurd hpoint hhandler.2.1
      · exact absurd hpoint hhandler.2.2 }

/-- Termination sets both flags and sends its error first. -/
theorem terminate (h : s.Settled) {evaluation : Evaluation} {lag : LagSession} (ok : Bool)
    (hended : s.lag.ended = false) (hlag : lag.ended = true ∧ lag.lagTerminated = true)
    (hpoint : (∀ final, s.handler ≠ .endSent final) ∧ s.handler ≠ .ending true) :
    (HandlerSession.send .error ok { s with
      lag, evaluating := some { evaluation, point := .erroring } }).Settled := by
  have hnot : s.lag.lagTerminated = false := by
    by_contra hterminated
    exact absurd (hended.symm.trans (h.flags (by simpa using hterminated))) Bool.noConfusion
  have hreturned : s.handler ≠ .returned := fun hpoint =>
    absurd (hended.symm.trans (h.returned hpoint)) Bool.noConfusion
  have hopen : Unended s.sent := by
    rcases h.sent with hopen | hclosed
    · exact hopen
    · rcases (h.byHandler hclosed hnot).2 with ⟨final, hfinal⟩ | ⟨hend, _⟩
      · exact absurd hfinal (hpoint.1 final)
      · exact absurd (hended.symm.trans hend) Bool.noConfusion
  apply send
  case hmessage => rfl
  case hfree => exact Or.inl rfl
  exact { h with
    flags := fun _ => hlag.1
    erroring := fun _ => ⟨hlag.2, hopen⟩
    terminating := fun _ hevaluation => by cases hevaluation
    byHandler := fun hclosed => absurd hopen hclosed.not_unended
    answered := fun _ _ => Or.inr ⟨evaluation, rfl⟩
    alone := fun hfinal => by
      rcases hfinal with hfinal | hfinal | hfinal
      · exact absurd hfinal hpoint.2
      · exact absurd hfinal (hpoint.1 true)
      · exact absurd hfinal hreturned
    returned := fun hfinal => absurd hfinal hreturned }

/-- The last part of an evaluation, which finds the hard limit kept while the end message is
being sent. -/
theorem enforce (h : s.Settled) (hquiet : ¬ s.Erroring) {evaluation : Evaluation} (ok : Bool)
    (hkept : s.handler = .endSent false →
      ¬ s.lag.Exceeds config evaluation.lag evaluation.now)
    (hfinal : s.handler ≠ .ending true ∧ s.handler ≠ .endSent true) :
    (s.enforce config evaluation ok).Settled := by
  unfold HandlerSession.enforce
  simp only
  rcases LagSession.enforceHardLimit_flags config evaluation.lag evaluation.now s.lag with
    hflags | ⟨hexceeds, hended, hflags⟩
  · have hnot : (!s.lag.ended &&
        (s.lag.enforceHardLimit config evaluation.lag evaluation.now).ended) = false := by
      rw [hflags.1]
      simp
    rw [hnot]
    exact (h.withLag _ hflags).release hquiet
  · have hterminates : (!s.lag.ended &&
        (s.lag.enforceHardLimit config evaluation.lag evaluation.now).ended) = true := by
      rw [hended, hflags.1]
      rfl
    rw [hterminates]
    refine h.terminate ok hended hflags ⟨?_, hfinal.1⟩
    intro final hpoint
    cases final with
    | true => exact hfinal.2 hpoint
    | false => exact hkept hpoint hexceeds

theorem not_erroring {current : Evaluating} (h : s.evaluating = some current)
    (hpoint : current.point ≠ .erroring) : ¬ s.Erroring := by
  rintro ⟨evaluation, herroring⟩
  rw [h] at herroring
  exact hpoint (congrArg Evaluating.point (Option.some.inj herroring))

/-- An evaluation by a task that can make one keeps the invariant. -/
theorem evaluate (h : s.Settled) {byHandler : Bool} {now : Rat} (ok : Bool)
    (hfree : s.evaluating = none) (hended : s.lag.ended = false)
    (htask : if byHandler then s.handler = .handling else s.monitoring = true)
    (hquiet : Undisturbed config s (.evaluate byHandler now ok)) :
    (s.evaluate config byHandler now ok).Settled := by
  have herroring : ¬ s.Erroring := by
    rintro ⟨evaluation, hevaluating⟩
    rw [hfree] at hevaluating
    cases hevaluating
  have hpoint : s.handler ≠ .ending true ∧ s.handler ≠ .endSent true ∧
      s.handler ≠ .returned := by
    have hmonitoring : ¬ (s.handler = .ending true ∨ s.handler = .endSent true ∨
        s.handler = .returned) := by
      intro hpoint
      cases byHandler with
      | true =>
          have hhandling : s.handler = .handling := htask
          rw [hhandling] at hpoint
          simp at hpoint
      | false => exact absurd ((h.alone hpoint).1.symm.trans htask) Bool.noConfusion
    exact ⟨fun hp => hmonitoring (Or.inl hp), fun hp => hmonitoring (Or.inr (Or.inl hp)),
      fun hp => hmonitoring (Or.inr (Or.inr hp))⟩
  unfold HandlerSession.evaluate
  simp only
  split
  case isTrue hwarns =>
    have hsilent : Closed s.sent → s.lag.lagTerminated = true := by
      intro hclosed
      by_contra hterminated
      rcases (h.byHandler hclosed (by simpa using hterminated)).2 with ⟨final, hfinal⟩ | ⟨hend, _⟩
      · cases final with
        | true => exact hpoint.2.1 hfinal
        | false => exact (hquiet hfinal).1 hwarns
      · exact absurd (hended.symm.trans hend) Bool.noConfusion
    have hsent := h.send .lagWarning ok rfl (Or.inr hsilent)
    have hwarned := hsent.withLag (s.lag.warnOfLag config s.lag.lagSeconds now)
      (by
        rw [send_lag]
        exact LagSession.warnOfLag_flags)
    refine hwarned.hold ?_ ?_
    · rintro ⟨evaluation, hevaluating⟩
      have hevaluating : (s.send .lagWarning ok).evaluating =
        some { evaluation, point := .erroring } := hevaluating
      rw [send_evaluating, hfree] at hevaluating
      cases hevaluating
    · have hsame : ((s.send .lagWarning ok).withLag
          (s.lag.warnOfLag config s.lag.lagSeconds now)).handler = s.handler :=
        send_handler s .lagWarning ok
      rw [hsame]
      exact hpoint
  case isFalse =>
    exact h.enforce herroring ok (fun hfinal => (hquiet hfinal).2) ⟨hpoint.1, hpoint.2.1⟩

/-- The last message of a termination. -/
theorem sendTerminated (h : s.Settled) {evaluation : Evaluation} (ok : Bool)
    (hevaluating : s.evaluating = some { evaluation, point := .erroring }) :
    (HandlerSession.send .sessionTerminated ok
      { s with evaluating := some { evaluation, point := .terminating } }).Settled := by
  obtain ⟨hterminated, hopen⟩ := h.erroring ⟨evaluation, hevaluating⟩
  have halone : ¬ (s.handler = .ending true ∨ s.handler = .endSent true ∨
      s.handler = .returned) := by
    intro hpoint
    rw [(h.alone hpoint).2.1] at hevaluating
    cases hevaluating
  unfold HandlerSession.send
  simp only [MessageKind.exempt, Bool.not_true, Bool.and_false, Bool.false_eq_true, if_false]
  cases ok with
  | false =>
      exact { h with
        erroring := fun ⟨_, herroring⟩ => by cases herroring
        terminating := fun _ _ => hterminated
        byHandler := fun hclosed => absurd hopen hclosed.not_unended
        answered := fun hok => absurd hok (by simp)
        alone := fun hpoint => absurd hpoint halone }
  | true =>
      exact { h with
        sent := Or.inr (hopen.close rfl)
        erroring := fun ⟨_, herroring⟩ => by cases herroring
        terminating := fun _ _ => hterminated
        byHandler := fun _ hnot => absurd (hterminated.symm.trans hnot) Bool.noConfusion
        answered := fun _ _ => Or.inl (hopen.close rfl)
        alone := fun hpoint => absurd hpoint halone }

/-- The end message, which is not sent after a termination. -/
theorem sendEnd (h : s.Settled) {final : Bool} (ok : Bool) (hhandler : s.handler = .ending final) :
    ((s.send .sessionEnd ok).goTo (.endSent final)).Settled := by
  have hdecoding : s.decoding = false := by
    cases final with
    | true => exact (h.alone (Or.inl hhandler)).2.2
    | false =>
        cases hdecoding : s.decoding with
        | false => rfl
        | true =>
            exact absurd ((h.decoding hdecoding).symm.trans (h.ending (Or.inl hhandler)))
              Bool.noConfusion
  have halone : HandlerPoint.endSent final = .ending true ∨
      HandlerPoint.endSent final = .endSent true ∨ HandlerPoint.endSent final = .returned →
      s.monitoring = false ∧ s.evaluating = none ∧ s.decoding = false := by
    rintro (hpoint | hpoint | hpoint)
    · cases hpoint
    · cases hpoint
      exact h.alone (Or.inl hhandler)
    · cases hpoint
  have hending : HandlerPoint.endSent final = .ending false ∨
      HandlerPoint.endSent final = .endSent false → s.streaming = false := by
    rintro (hpoint | hpoint)
    · cases hpoint
    · cases hpoint
      exact h.ending (Or.inl hhandler)
  unfold HandlerSession.send
  split
  case isTrue hsilent =>
    have hterminated : s.lag.lagTerminated = true := by
      simpa [MessageKind.exempt] using hsilent
    exact { h with
      byHandler := fun _ hnot => absurd (hterminated.symm.trans hnot) Bool.noConfusion
      answered := fun hok _ => h.answered hok (Or.inl (h.flags hterminated))
      alone := halone
      drained := fun hpoint => by cases hpoint
      ending := hending
      returned := fun hpoint => by cases hpoint }
  case isFalse hloud =>
    have hterminated : ¬ s.lag.lagTerminated = true := by
      simpa [MessageKind.exempt] using hloud
    have hopen : Unended s.sent := by
      rcases h.sent with hopen | hclosed
      · exact hopen
      · exact absurd (h.silent (Or.inr (Or.inr (Or.inl ⟨final, hhandler⟩))) hclosed) hterminated
    cases ok with
    | false =>
        exact { h with
          byHandler := fun hclosed => absurd hopen hclosed.not_unended
          answered := fun hok => Bool.noConfusion hok
          alone := halone
          drained := fun hpoint => by cases hpoint
          ending := hending
          returned := fun hpoint => by cases hpoint }
    | true =>
        exact { h with
          sent := Or.inr (hopen.close rfl)
          erroring := fun herroring => absurd (h.erroring herroring).1 hterminated
          byHandler := fun _ _ => ⟨hdecoding, Or.inl ⟨final, rfl⟩⟩
          answered := fun _ _ => Or.inl (hopen.close rfl)
          alone := halone
          drained := fun hpoint => by cases hpoint
          ending := hending
          returned := fun hpoint => by cases hpoint }

theorem endDone (h : s.Settled) {final : Bool} (hhandler : s.handler = .endSent final) :
    (s.endDone final).Settled := by
  have hanswered := fun hok => h.answered hok (Or.inr ⟨final, hhandler⟩)
  cases final with
  | true =>
      exact { h with
        flags := fun _ => rfl
        byHandler := fun hclosed hnot =>
          ⟨(h.byHandler hclosed hnot).1, Or.inr ⟨rfl, Or.inl rfl⟩⟩
        answered := fun hok _ => hanswered hok
        alone := fun _ => h.alone (Or.inr (Or.inl hhandler))
        drained := fun hpoint => by cases hpoint
        ending := fun hpoint => by rcases hpoint with hpoint | hpoint <;> cases hpoint
        returned := fun _ => rfl }
  | false =>
      have hstreaming := h.ending (Or.inr hhandler)
      exact { h with
        flags := fun _ => rfl
        byHandler := fun hclosed hnot =>
          ⟨(h.byHandler hclosed hnot).1, Or.inr ⟨rfl, Or.inr ⟨hstreaming, Or.inl rfl⟩⟩⟩
        answered := fun hok _ => hanswered hok
        alone := fun hpoint => by rcases hpoint with hpoint | hpoint | hpoint <;> cases hpoint
        drained := fun hpoint => by cases hpoint
        ending := fun hpoint => by rcases hpoint with hpoint | hpoint <;> cases hpoint
        returned := fun hpoint => by cases hpoint }

theorem stopDecoding (h : s.Settled) (flush : Option Bool) (hhandler : s.handler = .leaving)
    (hflush : flush.isSome = true → s.streaming = true) : (s.stopDecoding flush).Settled := by
  have hended : Closed s.sent → s.lag.lagTerminated = false →
      s.lag.ended = true ∧ s.streaming = false := by
    intro hclosed hnot
    rcases (h.byHandler hclosed hnot).2 with ⟨final, hpoint⟩ | ⟨hend, hpoint | ⟨hoff, _⟩⟩
    · exact absurd (hhandler.symm.trans hpoint) (by simp)
    · exact absurd (hhandler.symm.trans hpoint) (by simp)
    · exact ⟨hend, hoff⟩
  have hstopped : ({ s with decoding := false, handler := .drained } : HandlerSession).Settled :=
    { h with
      byHandler := fun hclosed hnot => ⟨rfl, Or.inr ⟨(hended hclosed hnot).1,
        Or.inr ⟨(hended hclosed hnot).2, Or.inr rfl⟩⟩⟩
      answered := fun hok hend => h.answered hok <| hend.imp_right fun ⟨_, hpoint⟩ => by
        cases hpoint
      alone := fun hpoint => by rcases hpoint with hpoint | hpoint | hpoint <;> cases hpoint
      drained := fun _ => rfl
      decoding := fun hdecoding => by cases hdecoding
      ending := fun hpoint => by rcases hpoint with hpoint | hpoint <;> cases hpoint
      returned := fun hpoint => by cases hpoint }
  cases flush with
  | none => exact hstopped
  | some ok =>
      refine hstopped.send .transcript ok rfl (Or.inr ?_)
      intro hclosed
      by_contra hterminated
      have hoff := (hended hclosed (by simpa using hterminated)).2
      exact absurd ((hflush rfl).symm.trans hoff) Bool.noConfusion

/-- The handler goes on alone once the monitor is cancelled. -/
theorem stopMonitor (h : s.Settled) (hhandler : s.handler = .drained) (hquiet : ¬ s.Erroring) :
    s.stopMonitor.Settled := by
  have hclosed := fun hok hend => (h.answered hok hend).resolve_right hquiet
  have hdecoding := h.drained hhandler
  have hnot : ¬ ∃ final, s.handler = .endSent final := by
    rintro ⟨final, hpoint⟩
    exact absurd (hhandler.symm.trans hpoint) (by simp)
  unfold HandlerSession.stopMonitor
  cases hended : s.lag.ended with
  | true =>
      simp only [if_true]
      exact { h with
        erroring := fun ⟨_, herroring⟩ => by cases herroring
        terminating := fun _ hevaluation => by cases hevaluation
        byHandler := fun _ _ => ⟨hdecoding, Or.inr ⟨hended, Or.inl rfl⟩⟩
        answered := fun hok _ => Or.inl (hclosed hok (Or.inl hended))
        alone := fun _ => ⟨rfl, rfl, hdecoding⟩
        drained := fun hpoint => by cases hpoint
        ending := fun hpoint => by rcases hpoint with hpoint | hpoint <;> cases hpoint
        returned := fun _ => hended }
  | false =>
      simp only [Bool.false_eq_true, if_false]
      exact { h with
        erroring := fun ⟨_, herroring⟩ => by cases herroring
        terminating := fun _ hevaluation => by cases hevaluation
        byHandler := fun hclosed hterminated => by
          rcases (h.byHandler hclosed hterminated).2 with hpoint | ⟨hend, _⟩
          · exact absurd hpoint hnot
          · exact absurd (hended.symm.trans hend) Bool.noConfusion
        answered := fun _ hend => by
          rcases hend with hend | ⟨_, hpoint⟩
          · exact absurd (hended.symm.trans hend) Bool.noConfusion
          · cases hpoint
        alone := fun _ => ⟨rfl, rfl, hdecoding⟩
        drained := fun hpoint => by cases hpoint
        ending := fun hpoint => by rcases hpoint with hpoint | hpoint <;> cases hpoint
        returned := fun hpoint => by cases hpoint }

/-- Every action of an undisturbed session keeps the invariant. -/
theorem step (h : s.Settled) {s' : HandlerSession} {action : SessionAction}
    (hstep : SessionStep config s action s') (hquiet : Undisturbed config s action) :
    s'.Settled := by
  cases hstep with
  | receive hhandler =>
      exact h.goTo (Or.inr (Or.inl rfl)) (h.silent (Or.inl hhandler))
  | receiveEnd hhandler =>
      have hsilent := h.silent (Or.inl hhandler)
      unfold HandlerSession.receiveEnd
      split
      · exact h.goTo (Or.inr (Or.inl rfl)) hsilent
      · split
        case isTrue => exact { h.goTo (Or.inr (Or.inl rfl)) hsilent with }
        case isFalse hstreaming =>
          exact { h with
            byHandler := fun hclosed hnot =>
              absurd (hnot.symm.trans (hsilent hclosed)) Bool.noConfusion
            answered := fun hok hend => h.answered hok <| hend.imp_right fun ⟨_, hpoint⟩ => by
              cases hpoint
            alone := fun hpoint => by rcases hpoint with hpoint | hpoint | hpoint <;> cases hpoint
            drained := fun hpoint => by cases hpoint
            ending := fun _ => Bool.eq_false_iff.mpr hstreaming
            returned := fun hpoint => by cases hpoint }
  | received bytes hhandler => exact h.withLag _ LagSession.recordReceivedAudio_flags
  | processed seconds hhandler => exact h.withLag _ LagSession.recordProcessedAudio_flags
  | discarded seconds hhandler => exact h.withLag _ LagSession.recordDiscardedAudio_flags
  | report message ok hhandler hmessage =>
      have hterminal : message.terminal = false := by
        simp only [List.mem_cons, List.not_mem_nil, or_false] at hmessage
        rcases hmessage with rfl | rfl | rfl <;> rfl
      refine h.send message ok hterminal (Or.inr (h.silent ?_))
      rcases hhandler with ⟨hhandler, _⟩ | hhandler
      · exact Or.inr (Or.inl hhandler)
      · exact Or.inr (Or.inr (Or.inl hhandler))
  | decode ok hdecoding hended =>
      exact h.send .transcript ok rfl (Or.inr (h.silent (Or.inr (Or.inr (Or.inr hdecoding)))))
  | evaluate byHandler now ok hfree hended htask => exact h.evaluate ok hfree hended htask hquiet
  | enforce ok hevaluating =>
      have hpoint : ¬ (s.handler = .ending true ∨ s.handler = .endSent true ∨
          s.handler = .returned) := by
        intro hpoint
        rw [(h.alone hpoint).2.1] at hevaluating
        cases hevaluating
      exact h.enforce (not_erroring hevaluating (by simp)) ok
        (fun hhandler => hquiet hhandler _ hevaluating)
        ⟨fun hhandler => hpoint (Or.inl hhandler),
          fun hhandler => hpoint (Or.inr (Or.inl hhandler))⟩
  | terminate ok hevaluating => exact h.sendTerminated ok hevaluating
  | closed hevaluating => exact h.release (not_erroring hevaluating (by simp))
  | finishMessage hhandler hbusy =>
      refine h.goTo ?_ (h.silent (Or.inr (Or.inl hhandler)))
      split
      · exact Or.inr (Or.inr rfl)
      · exact Or.inl rfl
  | leave hhandler => exact h.goTo (Or.inr (Or.inr rfl)) (h.silent (Or.inl hhandler))
  | raised ok hhandler =>
      have hsilent : Closed s.sent → s.lag.lagTerminated = true := by
        apply h.silent
        rcases hhandler with hhandler | ⟨hhandler, _⟩
        · exact Or.inl hhandler
        · exact Or.inr (Or.inl hhandler)
      unfold HandlerSession.failLoop
      split
      case isTrue hterminated => exact h.goTo (Or.inr (Or.inr rfl)) hsilent
      case isFalse hnot =>
        have hopen : Unended s.sent := h.sent.resolve_right fun hclosed => hnot (hsilent hclosed)
        have hsent := h.send .error ok rfl (Or.inl rfl)
        refine hsent.goTo (Or.inr (Or.inr rfl)) ?_
        have hunended : Unended (s.send .error ok).sent := by
          unfold HandlerSession.send
          split
          · exact hopen
          · split
            · exact hopen.append rfl
            · exact hopen
        exact fun hclosed => absurd hunended hclosed.not_unended
  | sendEnd ok hhandler => exact h.sendEnd ok hhandler
  | endDone hhandler => exact h.endDone hhandler
  | stopDecoding flush hhandler hflush => exact h.stopDecoding flush hhandler hflush
  | stopMonitor hhandler =>
      exact h.stopMonitor hhandler fun ⟨_, herroring⟩ => hquiet _ herroring rfl
  | exitMonitor hmonitoring hended hevaluating =>
      exact { h with alone := fun hpoint => ⟨rfl, (h.alone hpoint).2⟩ }

theorem run (h : s.Settled) {s' : HandlerSession}
    (hrun : SessionRun config (Undisturbed config) s s') : s'.Settled :=
  hrun.invariant h fun _ _ _ hs hstep hquiet => hs.step hstep hquiet

end Settled

end HandlerSession

/-- A session that the monitor does not disturb while it ends sends one terminal message, and
no transcript, voice activity or lag message after it. -/
theorem terminalOnce_of_undisturbed (config : AudioConfig) {streaming ok : Bool}
    {s : HandlerSession}
    (hrun : SessionRun config (Undisturbed config) (.start streaming ok) s) : TerminalOnce s :=
  ((HandlerSession.Settled.start streaming ok).run hrun).terminalOnce

/-- A session that the client leaves at once. -/
def departed : HandlerSession :=
  (((HandlerSession.start false true).goTo .leaving).stopDecoding none).stopMonitor

theorem terminalOnce_departed :
    TerminalOnce (((departed.send .sessionEnd true).goTo (.endSent true)).endDone true) :=
  terminalOnce_of_undisturbed resamplingConfig <|
    .step (.step (.step (.step (.step (.refl (HandlerSession.start false true))
      (.leave rfl) trivial)
      (.stopDecoding none rfl (by decide)) trivial)
      (.stopMonitor rfl) (by intro _ hcurrent; cases hcurrent))
      (.sendEnd true rfl) trivial)
      (.endDone rfl) trivial

section Overload

/-- Eight seconds of audio arrive in one message, and the lag is evaluated. -/
def overloaded : HandlerSession :=
  let s := (HandlerSession.start false true).goTo .handling
  (s.withLag (s.lag.recordReceivedAudio resamplingConfig 256000)).evaluate resamplingConfig true 0 true

/-- Three seconds later the monitor evaluates it again. -/
def watched : HandlerSession :=
  (overloaded.enforce resamplingConfig ⟨true, 8, 0⟩ true).evaluate resamplingConfig false 3 true

/-- The monitor has called the send of the error when the handler leaves and cancels it. -/
def abandoned : HandlerSession :=
  ((watched.enforce resamplingConfig ⟨false, 8, 3⟩ true).finishMessage.stopDecoding none).stopMonitor

theorem abandoned_reached :
    SessionRun resamplingConfig (fun _ _ => True) (.start false true) abandoned :=
  .step (.step (.step (.step (.step (.step (.step (.step (.step (.refl _)
    (.receive rfl) trivial)
    (.received 256000 rfl (by decide +kernel)) trivial)
    (.evaluate true 0 true (by decide +kernel) (by decide +kernel) (by decide +kernel)) trivial)
    (.enforce true (by decide +kernel)) trivial)
    (.evaluate false 3 true (by decide +kernel) (by decide +kernel) (by decide +kernel)) trivial)
    (.enforce true (by decide +kernel)) trivial)
    (.finishMessage (by decide +kernel) (by decide +kernel)) trivial)
    (.stopDecoding none (by decide +kernel) (by decide)) trivial)
    (.stopMonitor (by decide +kernel)) trivial

end Overload

/-- The session has returned, no send has failed, and no terminal message was sent. -/
theorem terminal_missing :
    ¬ ∀ (config : AudioConfig) (streaming ok : Bool) (s : HandlerSession),
      SessionRun config (fun _ _ => True) (.start streaming ok) s → TerminalOnce s := by
  intro h
  have honce := (h resamplingConfig false true abandoned abandoned_reached).exactlyOne
    (by decide +kernel) (by decide +kernel)
  exact absurd honce (by decide +kernel)

end Dalston.Realtime
