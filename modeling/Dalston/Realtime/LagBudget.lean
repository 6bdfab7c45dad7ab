import Dalston.Realtime.LagAccounting

/-!
# The lag of a session that keeps up

Along every run of a session whose client sends at the worker's rate, the
outstanding seconds are those of the buffer and of the chunk in processing. A
session between chunks is then less than one chunk behind. With another rate, or
with a hard limit shorter than a partial chunk, one message is enough to break this.
-/

namespace Dalston.Realtime

section Rates

variable (config : AudioConfig)

theorem samplesPerSecond_pos : 0 < config.samplesPerSecond := by
  have hrate : 0 < config.sampleRate :=
    lt_of_lt_of_le (by decide : 0 < MIN_SAMPLE_RATE) config.sampleRate_range.1
  have hchannels : 0 < config.channels := config.channels_range.1
  unfold AudioConfig.samplesPerSecond
  positivity

theorem chunkSamples_ge : 800 ≤ config.chunkSamples := by
  have hrate : 8000 ≤ config.sampleRate := config.sampleRate_range.1
  have hchannels : 1 ≤ config.channels := config.channels_range.1
  have hchunk : 800 ≤ config.sampleRate * CHUNK_DURATION_MS / 1000 := by
    unfold CHUNK_DURATION_MS
    omega
  calc 800 = 800 * 1 := rfl
    _ ≤ config.sampleRate * CHUNK_DURATION_MS / 1000 * config.channels :=
        Nat.mul_le_mul hchunk hchannels

theorem samplesToSeconds_eq {samples : Rat} (h : 0 ≤ samples) :
    config.samplesToSeconds samples = samples / config.samplesPerSecond := by
  unfold AudioConfig.samplesToSeconds
  split
  · rename_i hle
    rw [le_antisymm hle h, zero_div]
  · rfl

/-- Bytes that decode to samples last as long as the samples do. -/
theorem audioBytesToSeconds_eq {bytes samples : Nat} (h : config.decodeAudio bytes = some samples) :
    config.audioBytesToSeconds bytes = samples / config.samplesPerSecond := by
  have hsize := config.encoding.bytesPerSample_pos
  unfold AudioConfig.decodeAudio at h
  split at h
  · rename_i hmod
    have hsamples : bytes = config.encoding.bytesPerSample * samples := by
      rw [← Option.some.inj h]
      exact (Nat.mul_div_cancel' (Nat.dvd_of_mod_eq_zero hmod)).symm
    have hpos := samplesPerSecond_pos config
    unfold AudioConfig.audioBytesToSeconds
    split
    · rename_i hzero
      have hnone : samples = 0 := by
        rcases Nat.mul_eq_zero.mp (hsamples.symm.trans hzero) with hbad | hnone
        · omega
        · exact hnone
      simp [hnone]
    · rw [hsamples]
      push_cast
      field_simp
  · cases h

end Rates

namespace LagSession

variable {config : AudioConfig} {s : LagSession}

theorem outstanding_recordProcessedAudio {seconds : Rat} (h : 0 ≤ seconds) :
    (s.recordProcessedAudio seconds).outstanding = s.outstanding - seconds := by
  unfold recordProcessedAudio
  split
  · simp only [outstanding]
    ring
  · rename_i hle
    rw [le_antisymm (not_lt.mp hle) h, sub_zero]

theorem outstanding_recordDiscardedAudio {seconds : Rat} (h : 0 ≤ seconds) :
    (s.recordDiscardedAudio seconds).outstanding = s.outstanding - seconds := by
  unfold recordDiscardedAudio
  split
  · simp only [outstanding]
    ring
  · rename_i hle
    rw [le_antisymm (not_lt.mp hle) h, sub_zero]

@[simp] theorem buffer_recordProcessedAudio (seconds : Rat) :
    (s.recordProcessedAudio seconds).buffer = s.buffer := by
  unfold recordProcessedAudio
  split <;> rfl

@[simp] theorem buffer_recordDiscardedAudio (seconds : Rat) :
    (s.recordDiscardedAudio seconds).buffer = s.buffer := by
  unfold recordDiscardedAudio
  split <;> rfl

@[simp] theorem lagHardExceededSince_warnOfLag (lag now : Rat) :
    (s.warnOfLag config lag now).lagHardExceededSince = s.lagHardExceededSince := by
  unfold warnOfLag
  split <;> rfl

@[simp] theorem ended_warnOfLag (lag now : Rat) :
    (s.warnOfLag config lag now).ended = s.ended := by
  unfold warnOfLag
  split <;> rfl

@[simp] theorem lagTerminated_warnOfLag (lag now : Rat) :
    (s.warnOfLag config lag now).lagTerminated = s.lagTerminated := by
  unfold warnOfLag
  split <;> rfl

/-- What an evaluation leaves alone. -/
structure SameAudio (s s' : LagSession) : Prop where
  buffer : s'.buffer = s.buffer
  activity : s'.activity = s.activity
  outstanding : s'.outstanding = s.outstanding

theorem SameAudio.refl (s : LagSession) : SameAudio s s := ⟨rfl, rfl, rfl⟩

theorem sameAudio_evaluateLagBudget (config : AudioConfig) (s : LagSession)
    (evaluation : Evaluation) : SameAudio s (s.evaluateLagBudget config evaluation) := by
  have hwarn : SameAudio s (s.warnOfLag config evaluation.lag evaluation.now) := by
    unfold warnOfLag
    split
    · exact ⟨rfl, rfl, rfl⟩
    · exact SameAudio.refl s
  have hlimit : ∀ t : LagSession,
      SameAudio t (t.enforceHardLimit config evaluation.lag evaluation.now) := by
    intro t
    unfold enforceHardLimit terminateForLag
    split
    · exact ⟨rfl, rfl, rfl⟩
    · split
      · exact ⟨rfl, rfl, rfl⟩
      · split
        · exact SameAudio.refl t
        · split
          · exact SameAudio.refl t
          · exact ⟨rfl, rfl, rfl⟩
  have hafter := hlimit (s.warnOfLag config evaluation.lag evaluation.now)
  exact ⟨hafter.buffer.trans hwarn.buffer, hafter.activity.trans hwarn.activity,
    hafter.outstanding.trans hwarn.outstanding⟩

end LagSession

/-- At these points of the handler no full chunk is left in the buffer. -/
def Activity.settled : Activity → Bool
  | waiting | concluding | flushing _ => true
  | _ => false

/-- The accounts of a session whose client sends at the rate of the worker. -/
structure Balanced (config : AudioConfig) (s : LagSession) : Prop where
  balance : s.outstanding = s.unaccounted / config.samplesPerSecond
  buffered : ∃ n : Nat, s.buffer.length = n
  inFlight : ∃ n : Nat, s.activity.inFlight = n
  settled : s.activity.settled = true → s.Drained config

namespace Balanced

variable {config : AudioConfig} {s : LagSession}

theorem fresh : Balanced config .fresh := by
  constructor
  · simp [LagSession.fresh, LagSession.outstanding, LagSession.unaccounted, AudioBuffer.empty,
      Activity.inFlight]
  · exact ⟨0, by simp [LagSession.fresh, AudioBuffer.empty]⟩
  · exact ⟨0, by simp [LagSession.fresh, Activity.inFlight]⟩
  · intro _
    have hchunk : (800 : Rat) ≤ config.chunkSamples := by exact_mod_cast chunkSamples_ge config
    have hnone : LagSession.fresh.unaccounted = 0 := by
      simp [LagSession.fresh, LagSession.unaccounted, AudioBuffer.empty, Activity.inFlight]
    unfold LagSession.Drained
    rw [hnone]
    linarith

/-- The handler moves on with the same audio in flight. -/
theorem goTo (h : Balanced config s) {activity : Activity}
    (hflight : activity.inFlight = s.activity.inFlight)
    (hsettled : activity.settled = true → s.Drained config) :
    Balanced config (s.goTo activity) := by
  have hsame : (s.goTo activity).unaccounted = s.unaccounted := by
    simp [LagSession.unaccounted, LagSession.goTo, hflight]
  constructor
  · rw [hsame]
    exact h.balance
  · exact h.buffered
  · obtain ⟨n, hn⟩ := h.inFlight
    exact ⟨n, hflight.trans hn⟩
  · intro hactivity
    unfold LagSession.Drained
    rw [hsame]
    exact hsettled hactivity

/-- Audio that has been in flight or in the buffer is accounted for. -/
theorem account (h : Balanced config s) (samples : Rat) {t : LagSession}
    (hbuffered : ∃ n : Nat, t.buffer.length = n) (hflight : t.activity.inFlight = 0)
    (hout : t.outstanding = s.outstanding - samples / config.samplesPerSecond)
    (hleft : t.buffer.length = s.unaccounted - samples)
    (hsettled : t.activity.settled = true → t.buffer.length < config.chunkSamples) :
    Balanced config t := by
  have hrest : t.unaccounted = s.unaccounted - samples := by
    rw [LagSession.unaccounted, hflight, hleft, add_zero]
  constructor
  · rw [hout, hrest, h.balance, sub_div]
  · exact hbuffered
  · exact ⟨0, by simp [hflight]⟩
  · intro hactivity
    unfold LagSession.Drained LagSession.unaccounted
    rw [hflight, add_zero]
    exact hsettled hactivity

theorem receive (h : Balanced config s) (hrate : config.clientRate = config.sampleRate)
    {buffer : AudioBuffer} {bytes : Nat} (hwaiting : s.activity = .waiting)
    (hadd : s.buffer.add config bytes = some buffer) :
    Balanced config (s.receive config buffer bytes) := by
  obtain ⟨samples, hsamples, hbuffer⟩ := Option.map_eq_some_iff.mp hadd
  have hlength : buffer.length = s.buffer.length + samples := by
    rw [← hbuffer]
    simp [AudioConfig.resampleIfNeeded, hrate]
  obtain ⟨n, hn⟩ := h.buffered
  apply h.account (-(samples : Rat))
  · exact ⟨n + samples, by
      simp [LagSession.receive, LagSession.goTo, LagSession.recordReceivedAudio,
        LagSession.withBuffer, hlength, hn]⟩
  · rfl
  · simp only [LagSession.receive, LagSession.goTo, LagSession.recordReceivedAudio,
      LagSession.withBuffer, LagSession.outstanding, audioBytesToSeconds_eq config hsamples]
    ring
  · simp [LagSession.receive, LagSession.goTo, LagSession.recordReceivedAudio,
      LagSession.withBuffer, LagSession.unaccounted, hlength, hwaiting, Activity.inFlight]
  · intro hsettled
    cases hsettled

theorem unaccounted_waiting (hwaiting : s.activity = .waiting) : s.unaccounted = s.buffer.length := by
  simp [LagSession.unaccounted, hwaiting, Activity.inFlight]

theorem length_nonneg (h : Balanced config s) : 0 ≤ s.buffer.length := by
  obtain ⟨n, hn⟩ := h.buffered
  rw [hn]
  exact Nat.cast_nonneg n

theorem flushBuffer (h : Balanced config s) (hwaiting : s.activity = .waiting) :
    Balanced config (s.flushBuffer config) := by
  have hdrained : s.Drained config := h.settled (by rw [hwaiting]; rfl)
  have hchunk : s.buffer.length < config.chunkSamples := by
    rwa [LagSession.Drained, unaccounted_waiting hwaiting] at hdrained
  by_cases hempty : s.buffer.length = 0
  · have hsame : s.flushBuffer config = s.goTo .concluding := by
      simp [LagSession.flushBuffer, AudioBuffer.flush, hempty, LagSession.withBuffer]
    rw [hsame]
    apply h.goTo
    · rw [hwaiting]
      rfl
    · intro _
      exact hdrained
  · by_cases hlong : 1 / 10 < config.samplesToSeconds s.buffer.length
    · have hsame : s.flushBuffer config =
          (s.withBuffer ⟨0, s.buffer.totalSamples⟩).goTo (.flushing s.buffer.length) := by
        simp only [LagSession.flushBuffer, AudioBuffer.flush, hempty, if_false, if_pos hlong]
      have hunaccounted : (s.flushBuffer config).unaccounted = s.unaccounted := by
        rw [hsame, unaccounted_waiting hwaiting]
        simp [LagSession.unaccounted, LagSession.goTo, LagSession.withBuffer, Activity.inFlight]
      constructor
      · rw [hunaccounted, hsame]
        exact h.balance
      · rw [hsame]
        exact ⟨0, by simp [LagSession.goTo, LagSession.withBuffer]⟩
      · rw [hsame]
        exact h.buffered
      · intro _
        unfold LagSession.Drained
        rw [hunaccounted]
        exact hdrained
    · have hsame : s.flushBuffer config = ((s.withBuffer ⟨0, s.buffer.totalSamples⟩).recordDiscardedAudio
          (config.samplesToSeconds s.buffer.length)).goTo .concluding := by
        simp only [LagSession.flushBuffer, AudioBuffer.flush, hempty, if_false, if_neg hlong]
      rw [hsame, samplesToSeconds_eq config h.length_nonneg]
      have hseconds : 0 ≤ s.buffer.length / config.samplesPerSecond :=
        div_nonneg h.length_nonneg (samplesPerSecond_pos config).le
      apply h.account s.buffer.length
      · exact ⟨0, by simp [LagSession.goTo, LagSession.withBuffer]⟩
      · rfl
      · exact LagSession.outstanding_recordDiscardedAudio hseconds
      · simp [LagSession.goTo, LagSession.withBuffer, unaccounted_waiting hwaiting]
      · intro _
        have hpos : (0 : Rat) < config.chunkSamples := h.length_nonneg.trans_lt hchunk
        simpa [LagSession.goTo, LagSession.withBuffer] using hpos

theorem clearBuffer (h : Balanced config s) (hwaiting : s.activity = .waiting) :
    Balanced config (s.clearBuffer config) := by
  have hdrained : s.Drained config := h.settled (by rw [hwaiting]; rfl)
  have hchunk : s.buffer.length < config.chunkSamples := by
    rwa [LagSession.Drained, unaccounted_waiting hwaiting] at hdrained
  have hseconds : 0 ≤ s.buffer.length / config.samplesPerSecond :=
    div_nonneg h.length_nonneg (samplesPerSecond_pos config).le
  apply h.account s.buffer.length
  · exact ⟨0, by simp [LagSession.clearBuffer, AudioBuffer.clear, LagSession.goTo,
      LagSession.withBuffer]⟩
  · rfl
  · exact LagSession.outstanding_recordDiscardedAudio hseconds
  · simp [LagSession.clearBuffer, AudioBuffer.clear, LagSession.goTo, LagSession.withBuffer,
      unaccounted_waiting hwaiting]
  · intro _
    have hpos : (0 : Rat) < config.chunkSamples := h.length_nonneg.trans_lt hchunk
    simpa [LagSession.clearBuffer, AudioBuffer.clear, LagSession.goTo, LagSession.withBuffer]
      using hpos

theorem extract (h : Balanced config s) {chunk : Rat} {rest : AudioBuffer}
    (hextracting : s.activity = .extracting)
    (hchunk : s.buffer.getChunk config = some (chunk, rest)) :
    Balanced config ((s.withBuffer rest).goTo (.chunk chunk)) := by
  unfold AudioBuffer.getChunk at hchunk
  split at hchunk
  · cases hchunk
  · rename_i hfull
    obtain ⟨rfl, rfl⟩ := Prod.mk.inj (Option.some.inj hchunk)
    have hsame : ((s.withBuffer { s.buffer with length := s.buffer.length - config.chunkSamples }).goTo
        (.chunk config.chunkSamples)).unaccounted = s.unaccounted := by
      simp [LagSession.unaccounted, LagSession.goTo, LagSession.withBuffer, Activity.inFlight,
        hextracting]
    constructor
    · rw [hsame]
      exact h.balance
    · obtain ⟨n, hn⟩ := h.buffered
      have hle : config.chunkSamples ≤ n := by
        rw [hn] at hfull
        exact_mod_cast not_lt.mp hfull
      exact ⟨n - config.chunkSamples, by
        simp [LagSession.goTo, LagSession.withBuffer, hn, Nat.cast_sub hle]⟩
    · exact ⟨config.chunkSamples, rfl⟩
    · intro hsettled
      cases hsettled

/-- The audio in flight has been processed. -/
theorem processed (h : Balanced config s) {samples : Rat} {activity : Activity}
    (hflight : s.activity.inFlight = samples) (hnone : activity.inFlight = 0)
    (hsettled : activity.settled = true → s.Drained config) :
    Balanced config
      ((s.recordProcessedAudio (config.samplesToSeconds samples)).goTo activity) := by
  have hsamples : 0 ≤ samples := by
    obtain ⟨n, hn⟩ := h.inFlight
    rw [← hflight, hn]
    exact Nat.cast_nonneg n
  have hseconds : 0 ≤ samples / config.samplesPerSecond :=
    div_nonneg hsamples (samplesPerSecond_pos config).le
  rw [samplesToSeconds_eq config hsamples]
  apply h.account samples
  · obtain ⟨n, hn⟩ := h.buffered
    exact ⟨n, by simp [LagSession.goTo, hn]⟩
  · exact hnone
  · exact LagSession.outstanding_recordProcessedAudio hseconds
  · simp [LagSession.goTo, LagSession.unaccounted, hflight]
  · intro hactivity
    have hdrained := hsettled hactivity
    unfold LagSession.Drained LagSession.unaccounted at hdrained
    simp only [LagSession.goTo, LagSession.buffer_recordProcessedAudio]
    linarith

theorem conclude (h : Balanced config s) (evaluation : Evaluation) :
    Balanced config (s.conclude config evaluation) := by
  have hsame := LagSession.sameAudio_evaluateLagBudget config s evaluation
  have hactivity : (s.conclude config evaluation).activity =
      if evaluation.byHandler then s.activity.next else s.activity := by
    simp only [LagSession.conclude, hsame.activity]
  have hflight : (s.conclude config evaluation).activity.inFlight = s.activity.inFlight := by
    rw [hactivity]
    split
    · cases s.activity <;> rfl
    · rfl
  have hunaccounted : (s.conclude config evaluation).unaccounted = s.unaccounted := by
    unfold LagSession.unaccounted
    rw [hflight]
    simp only [LagSession.conclude, hsame.buffer]
  constructor
  · rw [hunaccounted]
    exact hsame.outstanding.trans h.balance
  · obtain ⟨n, hn⟩ := h.buffered
    exact ⟨n, by simp only [LagSession.conclude, hsame.buffer, hn]⟩
  · rw [hflight]
    exact h.inFlight
  · intro hsettled
    unfold LagSession.Drained
    rw [hunaccounted]
    apply h.settled
    rw [hactivity] at hsettled
    split at hsettled
    · cases hs : s.activity <;> rw [hs] at hsettled <;> first | rfl | cases hsettled
    · exact hsettled

theorem readLag (h : Balanced config s) (byHandler : Bool) (now : Rat) :
    Balanced config (s.readLag byHandler now) :=
  ⟨h.balance, h.buffered, h.inFlight, h.settled⟩

/-- Every step keeps the accounts. -/
theorem step (h : Balanced config s) (hrate : config.clientRate = config.sampleRate)
    {s' : LagSession} (hstep : LagStep config s s') : Balanced config s' := by
  cases hstep with
  | audio bytes hwaiting _ hadd => exact h.receive hrate hwaiting hadd
  | undecodable bytes hwaiting _ _ =>
      exact h.goTo (by rw [hwaiting]; rfl) (fun hsettled => by cases hsettled)
  | flush hwaiting _ => exact h.flushBuffer hwaiting
  | clear hwaiting _ => exact h.clearBuffer hwaiting
  | update hwaiting _ =>
      exact h.goTo (by rw [hwaiting]; rfl) (fun _ => h.settled (by rw [hwaiting]; rfl))
  | close hwaiting =>
      exact h.goTo (by rw [hwaiting]; rfl) (fun hsettled => by cases hsettled)
  | extract hextracting _ hchunk => exact h.extract hextracting hchunk
  | drained hextracting _ hchunk =>
      apply h.goTo
      · rw [hextracting]
        rfl
      · intro _
        unfold AudioBuffer.getChunk at hchunk
        split at hchunk
        · rename_i hshort
          simpa [LagSession.Drained, LagSession.unaccounted, hextracting, Activity.inFlight]
            using hshort
        · cases hchunk
  | interrupted hextracting _ =>
      exact h.goTo (by rw [hextracting]; rfl) (fun hsettled => by cases hsettled)
  | processed hchunk =>
      exact h.processed (by rw [hchunk]; rfl) rfl (fun hsettled => by cases hsettled)
  | flushed hflushing =>
      exact h.processed (by rw [hflushing]; rfl) rfl
        (fun _ => h.settled (by rw [hflushing]; rfl))
  | fail hbusy =>
      apply h.goTo
      · rcases hbusy with hchunk | hflushing
        · rw [hchunk]
          rfl
        · rw [hflushing]
          rfl
      · intro hsettled
        cases hsettled
  | read byHandler now _ _ _ => exact h.readLag byHandler now
  | decide _ => exact h.conclude _
  | skip hactivity _ _ =>
      rcases hactivity with hreporting | hconcluding
      · rw [hreporting]
        exact h.goTo (by rw [hreporting]; rfl) (fun hsettled => by cases hsettled)
      · rw [hconcluding]
        exact h.goTo (by rw [hconcluding]; rfl) (fun _ => h.settled (by rw [hconcluding]; rfl))

theorem reachable (hrate : config.clientRate = config.sampleRate)
    (h : Reachable (LagStep config) s) : Balanced config s := by
  induction h with
  | refl => exact Balanced.fresh
  | tail _ hstep ih => exact ih.step hrate hstep

end Balanced

/-- No evaluation has read a lag above the hard limit. -/
structure Calm (config : AudioConfig) (s : LagSession) : Prop where
  lag : ∀ evaluation ∈ s.evaluation, evaluation.lag < config.lagHardSeconds
  alive : s.lagTerminated = false

namespace Calm

variable {config : AudioConfig} {s : LagSession}

theorem of_same (h : Calm config s) {t : LagSession} (hevaluation : t.evaluation = s.evaluation)
    (hterminated : t.lagTerminated = s.lagTerminated) : Calm config t :=
  ⟨fun evaluation he => h.lag evaluation (hevaluation ▸ he), hterminated.trans h.alive⟩

theorem recordProcessedAudio (h : Calm config s) (seconds : Rat) (activity : Activity) :
    Calm config ((s.recordProcessedAudio seconds).goTo activity) := by
  unfold LagSession.recordProcessedAudio
  split
  · exact h.of_same rfl rfl
  · exact h.of_same rfl rfl

theorem recordDiscardedAudio (h : Calm config s) (seconds : Rat) (activity : Activity) :
    Calm config ((s.recordDiscardedAudio seconds).goTo activity) := by
  unfold LagSession.recordDiscardedAudio
  split
  · exact h.of_same rfl rfl
  · exact h.of_same rfl rfl

theorem withBuffer (h : Calm config s) (buffer : AudioBuffer) :
    Calm config (s.withBuffer buffer) := h.of_same rfl rfl

theorem flushBuffer (h : Calm config s) : Calm config (s.flushBuffer config) := by
  unfold LagSession.flushBuffer AudioBuffer.flush
  split
  · exact h.of_same rfl rfl
  · dsimp only
    split
    · exact h.of_same rfl rfl
    · exact (h.withBuffer _).recordDiscardedAudio _ _

/-- An evaluation that has read a lag below the hard limit does not end the session. -/
theorem conclude (h : Calm config s) {evaluation : Evaluation}
    (hevaluation : s.evaluation = some evaluation) :
    Calm config (s.conclude config evaluation) := by
  have hlag := h.lag evaluation hevaluation
  constructor
  · intro other hother
    cases hother
  · have hlimit : (s.evaluateLagBudget config evaluation).lagTerminated = s.lagTerminated := by
      simp only [LagSession.evaluateLagBudget, LagSession.enforceHardLimit, hlag, if_true,
        LagSession.lagTerminated_warnOfLag]
    exact hlimit.trans h.alive

/-- A lag that is read when no full chunk is outstanding is below the hard limit. -/
theorem readLag (h : Calm config s) (hbalanced : Balanced config s)
    (hhard : ((config.chunkSamples : Rat) - 1) / config.samplesPerSecond < config.lagHardSeconds)
    (hdrained : s.Drained config) (byHandler : Bool) (now : Rat) :
    Calm config (s.readLag byHandler now) := by
  constructor
  · intro evaluation he
    have he : evaluation = ⟨byHandler, s.lagSeconds, now⟩ := (Option.some.inj he).symm
    rw [he]
    show s.lagSeconds < config.lagHardSeconds
    have hpositive : 0 < config.lagHardSeconds := by
      have hwarning := config.lagWarningSeconds_range
      have hhigher := config.lagWarningSeconds_lt
      linarith
    obtain ⟨n, hn⟩ := hbalanced.buffered
    obtain ⟨m, hm⟩ := hbalanced.inFlight
    have hwhole : s.unaccounted = ((n + m : Nat) : Rat) := by
      rw [LagSession.unaccounted, hn, hm]
      push_cast
      ring
    have hless : s.unaccounted ≤ (config.chunkSamples : Rat) - 1 := by
      have hnat : n + m + 1 ≤ config.chunkSamples := by
        unfold LagSession.Drained at hdrained
        rw [hwhole] at hdrained
        exact_mod_cast hdrained
      have hcast : ((n + m + 1 : Nat) : Rat) ≤ config.chunkSamples := by exact_mod_cast hnat
      rw [hwhole]
      push_cast at hcast ⊢
      linarith
    have houtstanding : s.outstanding < config.lagHardSeconds := by
      rw [hbalanced.balance]
      exact (div_le_div_of_nonneg_right hless (samplesPerSecond_pos config).le).trans_lt hhard
    exact max_lt hpositive houtstanding
  · exact h.alive

theorem step (h : Calm config s) (hbalanced : Balanced config s)
    (hhard : ((config.chunkSamples : Rat) - 1) / config.samplesPerSecond < config.lagHardSeconds)
    {s' : LagSession} (hstep : CalmStep config s s') : Calm config s' := by
  obtain ⟨hstep, hread⟩ := hstep
  cases hstep with
  | flush _ _ => exact h.flushBuffer
  | clear _ _ => exact (h.withBuffer _).recordDiscardedAudio _ _
  | processed _ => exact h.recordProcessedAudio _ _
  | flushed _ => exact h.recordProcessedAudio _ _
  | read byHandler now hfree _ _ =>
      apply h.readLag hbalanced hhard
      apply hread hfree
      intro hnone
      cases hnone
  | decide hevaluation => exact h.conclude hevaluation
  | _ => exact h.of_same rfl rfl

theorem reachable (hrate : config.clientRate = config.sampleRate)
    (hhard : ((config.chunkSamples : Rat) - 1) / config.samplesPerSecond < config.lagHardSeconds)
    (h : Reachable (CalmStep config) s) : Balanced config s ∧ Calm config s := by
  induction h with
  | refl => exact ⟨Balanced.fresh, ⟨fun _ he => (by cases he), rfl⟩⟩
  | tail _ hstep ih => exact ⟨ih.1.step hrate hstep.1, ih.2.step ih.1 hhard hstep⟩

end Calm

theorem lagAccounted_of_rates {config : AudioConfig}
    (hrate : config.clientRate = config.sampleRate)
    (hhard : ((config.chunkSamples : Rat) - 1) / config.samplesPerSecond < config.lagHardSeconds) :
    LagAccounted config := by
  have hchunk : (800 : Rat) ≤ config.chunkSamples := by exact_mod_cast chunkSamples_ge config
  constructor
  · intro s hreach hwaiting
    rw [(Balanced.reachable hrate hreach).balance, Balanced.unaccounted_waiting hwaiting]
    rfl
  · intro s hreach hdone
    have hbalanced := Balanced.reachable hrate hreach
    have hdrained : s.Drained config := by
      rcases hdone with hwaiting | hdrained
      · exact hbalanced.settled (by rw [hwaiting]; rfl)
      · exact hdrained
    rw [samplesToSeconds_eq config (by linarith)]
    apply max_lt
    · exact div_pos (by linarith) (samplesPerSecond_pos config)
    · rw [hbalanced.balance]
      exact div_lt_div_of_pos_right hdrained (samplesPerSecond_pos config)
  · intro s hreach
    exact (Calm.reachable hrate hhard hreach).2.alive

section OneMessage

variable (config : AudioConfig) (samples : Nat)

/-- A fresh session that has received a message of so many samples. -/
def received : LagSession :=
  LagSession.fresh.receive config
    ⟨0 + config.resampleIfNeeded samples, 0 + config.resampleIfNeeded samples⟩
    (samples * config.encoding.bytesPerSample)

theorem decodeAudio_samples :
    config.decodeAudio (samples * config.encoding.bytesPerSample) = some samples := by
  have hpos := config.encoding.bytesPerSample_pos
  simp [AudioConfig.decodeAudio, Nat.mul_div_cancel samples hpos]

theorem calmStep_receive : CalmStep config .fresh (received config samples) := by
  constructor
  · apply LagStep.audio
    · rfl
    · rfl
    · simp only [AudioBuffer.add, decodeAudio_samples, Option.map_some]
      rfl
  · intro _ hnone
    exact absurd rfl hnone

/-- A first evaluation at time 0 starts the grace window or leaves it closed. -/
theorem evaluate_first {s : LagSession} (hsince : s.lagHardExceededSince = none) (lag : Rat)
    (byHandler : Bool) :
    ∃ warned since, s.evaluateLagBudget config ⟨byHandler, lag, 0⟩ =
        { s with lastLagWarningAt := warned, lagHardExceededSince := since } ∧
      (config.lagHardSeconds ≤ lag → since = some 0) := by
  have hwarn : ∃ warned, s.warnOfLag config lag 0 = { s with lastLagWarningAt := warned } := by
    unfold LagSession.warnOfLag
    split
    · exact ⟨some 0, rfl⟩
    · exact ⟨s.lastLagWarningAt, rfl⟩
  obtain ⟨warned, hwarned⟩ := hwarn
  by_cases hlag : lag < config.lagHardSeconds
  · refine ⟨warned, none, ?_, fun hle => absurd hlag (not_lt.mpr hle)⟩
    simp [LagSession.evaluateLagBudget, LagSession.enforceHardLimit, hwarned, hlag]
  · refine ⟨warned, some 0, ?_, fun _ => rfl⟩
    simp [LagSession.evaluateLagBudget, LagSession.enforceHardLimit, hwarned, hlag, hsince]

/-- A session that has received one message of less than a chunk waits for the next one. -/
theorem calm_oneMessage (hshort : config.resampleIfNeeded samples < config.chunkSamples) :
    ∃ s, Reachable (CalmStep config) s ∧ s.activity = .waiting ∧ s.ended = false ∧
      s.evaluation = none ∧ s.buffer.length = config.resampleIfNeeded samples ∧
      s.outstanding = samples / config.samplesPerSecond ∧
      (config.lagHardSeconds ≤ s.lagSeconds → s.lagHardExceededSince = some 0) := by
  have hreceived : (received config samples).outstanding = samples / config.samplesPerSecond := by
    simp [received, LagSession.receive, LagSession.goTo, LagSession.recordReceivedAudio,
      LagSession.withBuffer, LagSession.outstanding, LagSession.fresh,
      audioBytesToSeconds_eq config (decodeAudio_samples config samples)]
  have hdrained : (received config samples).Drained config := by
    simpa [LagSession.Drained, LagSession.unaccounted, received, LagSession.receive,
      LagSession.goTo, LagSession.recordReceivedAudio, LagSession.withBuffer, Activity.inFlight]
      using hshort
  have hread : CalmStep config (received config samples)
      ((received config samples).readLag true 0) := by
    constructor
    · exact LagStep.read true 0 rfl rfl (fun _ => Or.inl rfl)
    · intro _ _
      exact hdrained
  have hfirst : ((received config samples).readLag true 0).lagHardExceededSince = none := rfl
  obtain ⟨warned, since, heval, hsince⟩ := evaluate_first config hfirst
    (received config samples).lagSeconds true
  have hdecide : CalmStep config ((received config samples).readLag true 0)
      (((received config samples).readLag true 0).conclude config
        ⟨true, (received config samples).lagSeconds, 0⟩) := by
    constructor
    · exact LagStep.decide rfl
    · intro hbusy
      cases hbusy
  have hconclude : ((received config samples).readLag true 0).conclude config
      ⟨true, (received config samples).lagSeconds, 0⟩ =
        { received config samples with
            lastLagWarningAt := warned
            lagHardExceededSince := since
            activity := .extracting
            evaluation := none } := by
    simp only [LagSession.conclude, heval]
    rfl
  rw [hconclude] at hdecide
  refine ⟨{ received config samples with
      lastLagWarningAt := warned
      lagHardExceededSince := since
      activity := .waiting
      evaluation := none }, ?_, rfl, rfl, rfl, ?_, hreceived, hsince⟩
  · refine (((Relation.ReflTransGen.single (calmStep_receive config samples)).tail hread).tail
      hdecide).tail ⟨LagStep.drained rfl rfl ?_, fun _ hnone => absurd rfl hnone⟩
    have hlength : (received config samples).buffer.length < config.chunkSamples := by
      simpa [received, LagSession.receive, LagSession.goTo, LagSession.recordReceivedAudio,
        LagSession.withBuffer] using hshort
    simp [AudioBuffer.getChunk, hlength]
  · simp [received, LagSession.receive, LagSession.goTo, LagSession.recordReceivedAudio,
      LagSession.withBuffer]

end OneMessage

theorem Reachable.of_calm {config : AudioConfig} {s : LagSession}
    (h : Reachable (CalmStep config) s) : Reachable (LagStep config) s :=
  Relation.ReflTransGen.mono (fun _ _ hstep => hstep.1) _ _ h

/-- The accounts are right only for a client that sends at the worker's rate. -/
theorem clientRate_of_lagAccounted {config : AudioConfig} (h : LagAccounted config) :
    config.clientRate = config.sampleRate := by
  by_contra hrate
  have hchunk : (800 : Rat) ≤ config.chunkSamples := by exact_mod_cast chunkSamples_ge config
  have hclient : 8000 ≤ config.clientRate := by
    unfold AudioConfig.clientRate
    cases hoption : config.clientSampleRate with
    | none => exact config.sampleRate_range.1
    | some rate => exact (config.clientSampleRate_range rate hoption).1
  have hclientRat : (8000 : Rat) ≤ config.clientRate := by exact_mod_cast hclient
  have hsampleRat : (config.sampleRate : Rat) ≤ 48000 := by
    exact_mod_cast config.sampleRate_range.2
  have hresampled : config.resampleIfNeeded 1 = config.sampleRate / config.clientRate := by
    simp [AudioConfig.resampleIfNeeded, hrate]
  have hshort : config.resampleIfNeeded 1 < config.chunkSamples := by
    rw [hresampled, div_lt_iff₀ (by linarith)]
    nlinarith
  obtain ⟨s, hreach, hwaiting, _, _, hlength, hout, _⟩ := calm_oneMessage config 1 hshort
  have hbalance := h.balance s hreach.of_calm hwaiting
  have hsps := samplesPerSecond_pos config
  rw [hout, AudioBuffer.bufferedDuration, hlength, hresampled,
    div_left_inj' hsps.ne', eq_div_iff (by linarith)] at hbalance
  apply hrate
  have hcast : (config.clientRate : Rat) = config.sampleRate := by
    simpa using hbalance
  exact_mod_cast hcast

/-- A partial chunk stays below the hard limit in a session that is never ended for it. -/
theorem hardLimit_of_lagAccounted {config : AudioConfig} (h : LagAccounted config) :
    ((config.chunkSamples : Rat) - 1) / config.samplesPerSecond < config.lagHardSeconds := by
  by_contra hhard
  have hrate := clientRate_of_lagAccounted h
  have hchunk := chunkSamples_ge config
  have hcast : ((config.chunkSamples - 1 : Nat) : Rat) = (config.chunkSamples : Rat) - 1 := by
    rw [Nat.cast_sub (by omega)]
    norm_num
  have hresampled : config.resampleIfNeeded (config.chunkSamples - 1) =
      (config.chunkSamples : Rat) - 1 := by
    simp only [AudioConfig.resampleIfNeeded, hrate, if_true, hcast]
  obtain ⟨s, hreach, hwaiting, hended, hfree, hlength, hout, hsince⟩ :=
    calm_oneMessage config (config.chunkSamples - 1) (by rw [hresampled]; linarith)
  have hlag : config.lagHardSeconds ≤ s.lagSeconds := by
    unfold LagSession.lagSeconds
    rw [hout, hcast]
    exact (not_lt.mp hhard).trans (le_max_right _ _)
  have hdrained : s.Drained config := by
    simp only [LagSession.Drained, LagSession.unaccounted, hwaiting, Activity.inFlight, hlength,
      hresampled]
    linarith
  have hread : CalmStep config s (s.readLag false config.lagHardGraceSeconds) := by
    constructor
    · exact LagStep.read false _ hfree hended (fun hhandler => by cases hhandler)
    · intro _ _
      exact hdrained
  have hdecide : CalmStep config (s.readLag false config.lagHardGraceSeconds)
      ((s.readLag false config.lagHardGraceSeconds).conclude config
        ⟨false, s.lagSeconds, config.lagHardGraceSeconds⟩) := by
    constructor
    · exact LagStep.decide rfl
    · intro hbusy
      cases hbusy
  have halive := h.survives _ ((hreach.tail hread).tail hdecide)
  have hterminated : ((s.readLag false config.lagHardGraceSeconds).evaluateLagBudget config
      ⟨false, s.lagSeconds, config.lagHardGraceSeconds⟩).lagTerminated = true := by
    have hsince : (s.readLag false config.lagHardGraceSeconds).lagHardExceededSince = some 0 :=
      hsince hlag
    have hended : (s.readLag false config.lagHardGraceSeconds).ended = false := hended
    simp [LagSession.evaluateLagBudget, LagSession.enforceHardLimit, LagSession.terminateForLag,
      not_lt.mpr hlag, hsince, hended]
  rw [show ((s.readLag false config.lagHardGraceSeconds).conclude config
      ⟨false, s.lagSeconds, config.lagHardGraceSeconds⟩).lagTerminated = true from hterminated]
    at halive
  cases halive

/-- In every run of a session the lag is the audio in the buffer, and reading it between chunks
never ends the session, exactly when the client sends at the worker's rate and a partial
chunk lasts less than the hard limit. -/
theorem lagAccounted_iff (config : AudioConfig) :
    LagAccounted config ↔
      config.clientRate = config.sampleRate ∧
        ((config.chunkSamples : Rat) - 1) / config.samplesPerSecond < config.lagHardSeconds := by
  constructor
  · intro h
    exact ⟨clientRate_of_lagAccounted h, hardLimit_of_lagAccounted h⟩
  · rintro ⟨hrate, hhard⟩
    exact lagAccounted_of_rates hrate hhard

/-- Audio at 24 kHz for a worker at 16 kHz. -/
def resamplingConfig : AudioConfig where
  encoding := .pcmS16le
  clientSampleRate := some 24000
  sampleRate := 16000
  channels := 1
  lagWarningSeconds := 3
  lagHardSeconds := 5
  lagHardGraceSeconds := 2
  clientSampleRate_range := by decide
  sampleRate_range := by decide
  channels_range := by decide
  lagWarningSeconds_range := by norm_num
  lagHardGraceSeconds_range := by norm_num
  lagWarningSeconds_lt := by norm_num

theorem not_lagAccounted_resampling : ¬ LagAccounted resamplingConfig := by
  intro h
  exact absurd (clientRate_of_lagAccounted h) (by decide)

end Dalston.Realtime
