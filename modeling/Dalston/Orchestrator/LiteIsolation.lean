import Dalston.Orchestrator.LitePipeline

/-!
# Isolation of the jobs of a lite pipeline

A loop takes whatever envelope is next in the queue of a stage, and handles it with the
parameters and the audio of its own call. Where no loop comes to take an envelope of
another call, and no two calls under way have one job id, every call that returns has
the transcript of its own job, and every request is made with the parameters and the
audio of the job it is for.

## Implementation notes

What a job is alone is the chain of its stages: the outputs so far, each the answer of an
engine to a request with the job's own parameters, audio and earlier outputs.
-/

namespace Dalston.Orchestrator.Lite

open Foundation Model

section Specification

variable (pipeline : LitePipeline) (call : LiteCall)

/-- The request that is made for a stage of the job alone. -/
def ownRequest (stage : Stage) (taskId : Nat) (previous : Dict Config) : EngineRequest where
  taskId
  jobId := call.jobId
  stage
  config := stageConfig pipeline stage call.parameters
  previousResponses := previous
  payload := some call.audio
  audio := if stage.hearsAudio then some call.audio else none

/-- An engine works at the stage. -/
def Stage.executes : Stage → Bool
  | transcribe | diarize | piiDetect => true
  | prepare | merge => false

/-- The outputs of the job's stages before a stage. -/
inductive Computed : Stage → Dict Config → Prop
  | start : Computed .prepare []
  | prepared {outputs : Dict Config} (h : Computed .prepare outputs) :
      Computed (nextStage pipeline.profile .prepare) outputs
  | executed {stage : Stage} {outputs : Dict Config} {taskId : Nat} {payload : Config}
      (h : Computed stage outputs) (hstage : stage.executes = true)
      (hpayload : executeStage pipeline (ownRequest pipeline call stage taskId outputs) =
        .ok payload) :
      Computed (nextStage pipeline.profile stage) (outputs.set stage.name payload)

/-- The result is that of the job alone. -/
def Own (result : LiteResult) : Prop :=
  ∃ outputs, Computed pipeline call .merge outputs ∧ result.jobId = call.jobId ∧
    mergeOutputs pipeline.profile call.jobId outputs = .ok result.transcript

/-- The request has the job, the parameters and the audio of the call. -/
def OwnRequest (request : EngineRequest) : Prop :=
  request =
    ownRequest pipeline call request.stage request.taskId request.previousResponses

/-- Every call that returned has its own transcript, and every request was made with the
parameters and the audio of the job of its envelope. -/
structure Isolated (s : LiteState) : Prop where
  returned : ∀ (i : Nat) (c : CallState) (result : LiteResult), s.calls[i]? = some c →
    c.phase = .returned result → Own pipeline c.call result
  executed : ∀ e ∈ s.executed, ∃ c : CallState, s.calls[e.owner]? = some c ∧
    OwnRequest pipeline c.call e.request

end Specification

section Conditions

/-- The stage whose queue the call polls next. -/
def Phase.polled : Phase → Option Stage
  | polling (stage :: _) => some stage
  | _ => none

/-- Calls are made at any time, and their awaits end in any order and in any way. -/
def AnyCall (_ : LiteState) (_ : LiteAction) : Prop := True

/-- No two calls under way have one job id, and no call polls a queue whose next envelope
is that of another call. -/
def Separate (s : LiteState) : LiteAction → Prop
  | .start call => ∀ c ∈ s.calls, c.phase.live = true → c.call.jobId ≠ call.jobId
  | .proceed i =>
      ∀ c ∈ s.calls[i]?, ∀ stage ∈ c.phase.polled, ∀ posted ∈ s.head? stage, posted.owner = i
  | .expire _ | .fail _ => True

instance (s : LiteState) : ∀ action, Decidable (Separate s action)
  | .start call =>
      inferInstanceAs (Decidable (∀ c ∈ s.calls, c.phase.live = true → c.call.jobId ≠ call.jobId))
  | .proceed i =>
      inferInstanceAs (Decidable
        (∀ c ∈ s.calls[i]?, ∀ stage ∈ c.phase.polled, ∀ posted ∈ s.head? stage, posted.owner = i))
  | .expire _ | .fail _ => isTrue trivial

abbrev LiteRun (pipeline : LitePipeline) (ok : LiteState → LiteAction → Prop) :
    LiteState → LiteState → Prop :=
  ActionRun (Acts (LiteState.next pipeline)) ok

end Conditions

section Invariants

variable (pipeline : LitePipeline) (s : LiteState) (i : Nat) (call : LiteCall)

/-- The waiting envelopes of a call. -/
def mine : List Posted := s.queue.filter fun posted => posted.owner = i

/-- The audio of the call is where its engines look for it. -/
def Heard : Prop := s.audioFiles (audioPath pipeline call i) = some call.audio

/-- At most one envelope of the call waits, for a stage before which its job is computed. -/
structure Holding : Prop where
  one : (mine s i).length ≤ 1
  own : ∀ posted ∈ mine s i, posted.jobId = call.jobId ∧
    Computed pipeline call posted.stage (s.outputs call.jobId)
  heard : Heard pipeline s i call

/-- The call has taken its envelope, and its job is computed before a stage. -/
structure Working (posted : Posted) (stage : Stage) : Prop where
  none : mine s i = []
  owner : posted.owner = i
  job : posted.jobId = call.jobId
  computed : Computed pipeline call stage (s.outputs call.jobId)
  heard : Heard pipeline s i call

def PhaseInv : Phase → Prop
  | .writing => mine s i = [] ∧ s.outputs call.jobId = []
  | .entering => mine s i = [] ∧ s.outputs call.jobId = [] ∧ Heard pipeline s i call
  | .polling _ | .acknowledging _ _ => Holding pipeline s i call
  | .executing posted request _ =>
      Working pipeline s i call posted posted.stage ∧ posted.stage.executes = true ∧
        request = requestFor pipeline s call posted
  | .storing posted _ _ | .advancing posted _ =>
      Working pipeline s i call posted (nextStage pipeline.profile posted.stage)
  | .publishing _ result | .finishing _ result | .returned result => Own pipeline call result
  | .raised => True

/-- The steps of other calls leave what the call depends on alone. -/
structure Untouched (s s' : LiteState) : Prop where
  mine : mine s' i = mine s i
  outputs : s'.outputs call.jobId = s.outputs call.jobId
  heard : s'.audioFiles (audioPath pipeline call i) = s.audioFiles (audioPath pipeline call i)

/-- The invariant of the runs in which the calls stay separate. -/
structure Inv : Prop where
  owners : ∀ posted ∈ s.queue, posted.owner < s.calls.length
  calls : ∀ (j : Nat) (c : CallState), s.calls[j]? = some c → PhaseInv pipeline s j c.call c.phase
  distinct : ∀ (j k : Nat) (c d : CallState), s.calls[j]? = some c → s.calls[k]? = some d →
    c.phase.live = true → d.phase.live = true → c.call.jobId = d.call.jobId → j = k
  executed : ∀ e ∈ s.executed, ∃ c : CallState, s.calls[e.owner]? = some c ∧
    OwnRequest pipeline c.call e.request

end Invariants

section Frames

variable {pipeline : LitePipeline} {s s' : LiteState} {i j : Nat} {call : LiteCall}

theorem Untouched.refl : Untouched pipeline i call s s := ⟨rfl, rfl, rfl⟩

theorem Untouched.trans {s'' : LiteState} (h : Untouched pipeline i call s s')
    (h' : Untouched pipeline i call s' s'') : Untouched pipeline i call s s'' :=
  ⟨h'.mine.trans h.mine, h'.outputs.trans h.outputs, h'.heard.trans h.heard⟩

theorem Holding.frame (h : Holding pipeline s i call) (hu : Untouched pipeline i call s s') :
    Holding pipeline s' i call where
  one := hu.mine ▸ h.one
  own posted hposted := hu.outputs ▸ h.own posted (hu.mine ▸ hposted)
  heard := hu.heard.trans h.heard

theorem Working.frame {posted : Posted} {stage : Stage}
    (h : Working pipeline s i call posted stage) (hu : Untouched pipeline i call s s') :
    Working pipeline s' i call posted stage where
  none := hu.mine.trans h.none
  owner := h.owner
  job := h.job
  computed := hu.outputs ▸ h.computed
  heard := hu.heard.trans h.heard

theorem PhaseInv.frame {phase : Phase} (h : PhaseInv pipeline s i call phase)
    (hu : Untouched pipeline i call s s') : PhaseInv pipeline s' i call phase := by
  cases phase with
  | writing => exact ⟨hu.mine.trans h.1, hu.outputs.trans h.2⟩
  | entering => exact ⟨hu.mine.trans h.1, hu.outputs.trans h.2.1, hu.heard.trans h.2.2⟩
  | polling | acknowledging => exact Holding.frame h hu
  | executing posted request rest =>
      obtain ⟨hworking, hstage, hrequest⟩ := h
      refine ⟨hworking.frame hu, hstage, hrequest.trans ?_⟩
      simp only [requestFor, hworking.job, hu.outputs]
  | storing | advancing => exact Working.frame h hu
  | publishing | finishing | returned | raised => exact h

theorem mine_enqueue (stage : Stage) (jobId : String) (owner : Nat) :
    mine (s.enqueue stage jobId owner) i =
      mine s i ++ if owner = i then
        [⟨⟨s.counter + 1, stage, s.tasks, jobId⟩, owner⟩] else [] := by
  simp only [mine, LiteState.enqueue, List.filter_append, List.filter_cons, List.filter_nil,
    decide_eq_true_eq]

theorem untouched_enqueue (stage : Stage) (jobId : String) {owner : Nat} (h : owner ≠ i) :
    Untouched pipeline i call s (s.enqueue stage jobId owner) where
  mine := by rw [mine_enqueue, if_neg h, List.append_nil]
  outputs := rfl
  heard := rfl

theorem queue_take {stage : Stage} {posted : Posted} (h : s.head? stage = some posted) :
    ∃ before after, s.queue = before ++ posted :: after ∧
      (s.take stage posted).queue = before ++ after := by
  obtain ⟨hstage, before, after, hqueue, hbefore⟩ := List.find?_eq_some_iff_append.mp h
  refine ⟨before, after, hqueue, ?_⟩
  show s.queue.eraseP _ = _
  rw [hqueue, List.eraseP_append_right _ (by simpa using hbefore),
    List.eraseP_cons_of_pos (by simpa using hstage)]

theorem untouched_take {stage : Stage} {posted : Posted} (h : s.head? stage = some posted)
    (hne : posted.owner ≠ i) : Untouched pipeline i call s (s.take stage posted) where
  mine := by
    obtain ⟨before, after, hqueue, htake⟩ := queue_take h
    simp [mine, hqueue, htake, hne]
  outputs := rfl
  heard := rfl

/-- A call that takes its only envelope has none left. -/
theorem mine_take {stage : Stage} {posted : Posted} (h : s.head? stage = some posted)
    (howner : posted.owner = i) (hone : (mine s i).length ≤ 1) :
    posted ∈ mine s i ∧ mine (s.take stage posted) i = [] := by
  obtain ⟨before, after, hqueue, htake⟩ := queue_take h
  constructor
  · simp [mine, hqueue, howner]
  · have hlength : (mine (s.take stage posted) i).length + 1 = (mine s i).length := by
      simp [mine, hqueue, htake, howner]
      omega
    exact List.eq_nil_of_length_eq_zero (by omega)

theorem outputs_set (jobId other : String) (outputs : Dict Config) :
    ({ s with stageOutputs := s.stageOutputs.set jobId outputs } : LiteState).outputs other =
      if jobId = other then outputs else s.outputs other := by
  simp only [LiteState.outputs, Dict.getD, Dict.get?_set]
  split <;> rfl

theorem outputs_record (jobId : String) (stage : Stage) (payload : Config) (other : String) :
    (s.recordStageOutput jobId stage payload).outputs other =
      if jobId = other then (s.outputs jobId).set stage.name payload else s.outputs other :=
  outputs_set jobId other _

theorem untouched_record {jobId : String} (stage : Stage) (payload : Config)
    (h : jobId ≠ call.jobId) :
    Untouched pipeline i call s (s.recordStageOutput jobId stage payload) where
  mine := rfl
  outputs := by rw [outputs_record, if_neg h]
  heard := rfl

theorem audioPath_ne {call' : LiteCall} (hjob : call'.jobId ≠ call.jobId) (hne : j ≠ i) :
    audioPath pipeline call i ≠ audioPath pipeline call' j := by
  unfold audioPath
  split
  · simpa using Ne.symm hjob
  · simpa using Ne.symm hne

theorem untouched_setFile {path : AudioPath} (content : Option Bytes)
    (h : audioPath pipeline call i ≠ path) :
    Untouched pipeline i call s (s.setFile path content) where
  mine := rfl
  outputs := rfl
  heard := if_neg h

theorem temp_ne (hne : j ≠ i) : audioPath pipeline call i ≠ .temp j := by
  unfold audioPath
  split
  · simp
  · simpa using Ne.symm hne

theorem untouched_cleanUp {call' : LiteCall} (hjob : call'.jobId ≠ call.jobId) (hne : j ≠ i) :
    Untouched pipeline i call s (s.cleanUp call' j) where
  mine := rfl
  outputs := by
    simp only [LiteState.cleanUp, LiteState.setFile, LiteState.outputs, Dict.getD,
      Dict.get?_erase, if_neg hjob]
  heard := if_neg (temp_ne hne)

end Frames

section Moves

variable {pipeline : LitePipeline} {s s' : LiteState} {i : Nat} {c : CallState}

theorem calls_setPhase (phase : Phase) (j : Nat) :
    (s.setPhase i phase).calls[j]? =
      if i = j then (s.calls[j]?).map fun c => { c with phase } else s.calls[j]? := by
  simp only [LiteState.setPhase]
  split
  next heq => rw [heq, List.getElem?_modify_eq]; rfl
  next hne => exact List.getElem?_modify_ne _ _ hne

/-- What holds of a call that is over does not depend on the state. -/
theorem PhaseInv.of_dead {call : LiteCall} {j : Nat} {phase : Phase}
    (h : PhaseInv pipeline s j call phase) (hdead : phase.live = false) :
    PhaseInv pipeline s' j call phase := by
  cases phase with
  | returned | raised => exact h
  | _ => cases hdead

/-- A call moves, and the other calls under way are left alone. -/
theorem Inv.move (h : Inv pipeline s) (hc : s.calls[i]? = some c) (hlive : c.phase.live = true)
    {phase : Phase} (hcalls : s'.calls = s.calls)
    (hothers : ∀ (j : Nat) (call : LiteCall), i ≠ j → c.call.jobId ≠ call.jobId →
      Untouched pipeline j call s s')
    (howners : ∀ posted ∈ s'.queue, posted.owner < s.calls.length)
    (hphase : PhaseInv pipeline s' i c.call phase)
    (hexecuted : ∀ e ∈ s'.executed, ∃ c : CallState, s.calls[e.owner]? = some c ∧
      OwnRequest pipeline c.call e.request) :
    Inv pipeline (s'.setPhase i phase) := by
  have hget : ∀ (j : Nat) (d : CallState), (s'.setPhase i phase).calls[j]? = some d →
      ∃ d', s.calls[j]? = some d' ∧ d.call = d'.call ∧
        (d.phase.live = true → d'.phase.live = true) := by
    intro j d hd
    rw [calls_setPhase, hcalls] at hd
    split at hd
    next heq =>
      rw [← heq, hc] at hd
      obtain rfl := Option.some.inj hd
      exact ⟨c, heq ▸ hc, rfl, fun _ => hlive⟩
    next => exact ⟨d, hd, rfl, id⟩
  refine ⟨?_, ?_, ?_, ?_⟩
  · intro posted hposted
    have hlength : (s'.setPhase i phase).calls.length = s.calls.length := by
      simp [LiteState.setPhase, hcalls]
    rw [hlength]
    exact howners posted hposted
  · intro j d hd
    rw [calls_setPhase, hcalls] at hd
    split at hd
    next heq =>
      rw [← heq, hc] at hd
      obtain rfl := Option.some.inj hd
      exact heq ▸ hphase.frame ⟨rfl, rfl, rfl⟩
    next hne =>
      rcases hd' : d.phase.live with _ | _
      · exact (h.calls j d hd).of_dead hd'
      · have hjob : c.call.jobId ≠ d.call.jobId :=
          fun hjob => hne (h.distinct i j c d hc hd hlive hd' hjob)
        exact ((h.calls j d hd).frame (hothers j d.call hne hjob)).frame ⟨rfl, rfl, rfl⟩
  · intro j k d e hd he hdlive helive hjob
    obtain ⟨d', hd', hdcall, hdlive'⟩ := hget j d hd
    obtain ⟨e', he', hecall, helive'⟩ := hget k e he
    rw [hdcall, hecall] at hjob
    exact h.distinct j k d' e' hd' he' (hdlive' hdlive) (helive' helive) hjob
  · intro e he
    obtain ⟨d, hd, hown⟩ := hexecuted e he
    by_cases heq : i = e.owner
    · refine ⟨{ d with phase }, ?_, hown⟩
      rw [calls_setPhase, if_pos heq, hcalls, hd]
      rfl
    · refine ⟨d, ?_, hown⟩
      rw [calls_setPhase, if_neg heq, hcalls]
      exact hd

/-- A call is made. -/
theorem Inv.start {call : LiteCall} {phase : Phase} (h : Inv pipeline s)
    (hcalls : s'.calls = s.calls ++ [⟨call, phase⟩]) (hqueue : s'.queue = s.queue)
    (hfresh : phase.live = true →
      ∀ c ∈ s.calls, c.phase.live = true → c.call.jobId ≠ call.jobId)
    (hothers : ∀ (j : Nat) (other : LiteCall), s.calls.length ≠ j →
      (phase.live = true → call.jobId ≠ other.jobId) → Untouched pipeline j other s s')
    (hphase : PhaseInv pipeline s' s.calls.length call phase)
    (hexecuted : s'.executed = s.executed) : Inv pipeline s' := by
  have hget : ∀ (j : Nat) (d : CallState), s'.calls[j]? = some d →
      s.calls[j]? = some d ∨ j = s.calls.length ∧ d = ⟨call, phase⟩ := by
    intro j d hd
    rw [hcalls, List.getElem?_append] at hd
    split at hd
    next => exact Or.inl hd
    next hle =>
      obtain ⟨hindex, hnew⟩ := List.getElem?_eq_some_iff.mp hd
      have hlast : j = s.calls.length := by
        simp only [List.length_singleton] at hindex
        omega
      subst hlast
      exact Or.inr ⟨rfl, by simpa using hnew.symm⟩
  refine ⟨?_, ?_, ?_, ?_⟩
  · intro posted hposted
    rw [hqueue] at hposted
    rw [hcalls, List.length_append]
    exact Nat.lt_add_right _ (h.owners posted hposted)
  · intro j d hd
    rcases hget j d hd with hold | ⟨rfl, rfl⟩
    · rcases hd' : d.phase.live with _ | _
      · exact (h.calls j d hold).of_dead hd'
      · have hne : s.calls.length ≠ j := by
          have := (List.getElem?_eq_some_iff.mp hold).1
          omega
        have hmem : d ∈ s.calls := List.mem_of_getElem? hold
        exact (h.calls j d hold).frame (hothers j d.call hne fun hl => (hfresh hl d hmem hd').symm)
    · exact hphase
  · intro j k d e hd he hdlive helive hjob
    rcases hget j d hd with hdold | ⟨rfl, rfl⟩ <;> rcases hget k e he with heold | ⟨rfl, rfl⟩
    · exact h.distinct j k d e hdold heold hdlive helive hjob
    · exact absurd hjob (hfresh helive d (List.mem_of_getElem? hdold) hdlive)
    · exact absurd hjob.symm (hfresh hdlive e (List.mem_of_getElem? heold) helive)
    · rfl
  · intro e he
    obtain ⟨d, hd, hown⟩ := h.executed e (hexecuted ▸ he)
    have hlt := (List.getElem?_eq_some_iff.mp hd).1
    exact ⟨d, by rw [hcalls, List.getElem?_append_left hlt]; exact hd, hown⟩

section Proceed

variable {posted : Posted} {rest : List Stage}

theorem Inv.enter (h : Inv pipeline s) (hc : s.calls[i]? = some c) (hphase : c.phase = .writing) :
    Inv pipeline (s.enter pipeline c.call i) := by
  have hinv := h.calls i c hc
  rw [hphase] at hinv
  refine h.move hc (by rw [hphase]; rfl) rfl ?_ h.owners ?_ h.executed
  · intro j call hne hjob
    exact untouched_setFile _ (audioPath_ne hjob hne)
  · exact ⟨hinv.1, hinv.2, if_pos rfl⟩

theorem owners_enqueue (h : Inv pipeline s) (hc : s.calls[i]? = some c) (stage : Stage)
    (jobId : String) :
    ∀ posted ∈ (s.enqueue stage jobId i).queue, posted.owner < s.calls.length := by
  intro posted hposted
  rcases List.mem_append.mp hposted with hold | hnew
  · exact h.owners posted hold
  · rw [List.mem_singleton.mp hnew]
    exact (List.getElem?_eq_some_iff.mp hc).1

/-- The envelope that a call without envelopes publishes is its only one. -/
theorem holding_enqueue {call : LiteCall} {stage : Stage} (hnone : mine s i = [])
    (hcomputed : Computed pipeline call stage (s.outputs call.jobId))
    (hheard : Heard pipeline s i call) :
    Holding pipeline (s.enqueue stage call.jobId i) i call where
  one := by rw [mine_enqueue, hnone, if_pos rfl]; exact le_rfl
  own posted hposted := by
    rw [mine_enqueue, hnone, if_pos rfl] at hposted
    obtain rfl := List.mem_singleton.mp hposted
    exact ⟨rfl, hcomputed⟩
  heard := hheard

theorem Inv.publishFirst (h : Inv pipeline s) (hc : s.calls[i]? = some c)
    (hphase : c.phase = .entering) (rest : List Stage) :
    Inv pipeline ((s.enqueue .prepare c.call.jobId i).setPhase i (.polling rest)) := by
  have hinv := h.calls i c hc
  rw [hphase] at hinv
  obtain ⟨hnone, houtputs, hheard⟩ := hinv
  refine h.move hc (by rw [hphase]; rfl) rfl ?_ (owners_enqueue h hc _ _) ?_ h.executed
  · intro j call hne _
    exact untouched_enqueue _ _ hne
  · exact holding_enqueue hnone (houtputs ▸ .start) hheard

theorem Inv.advance (h : Inv pipeline s) (hc : s.calls[i]? = some c)
    (hphase : c.phase = .advancing posted rest) :
    Inv pipeline ((s.enqueue (nextStage pipeline.profile posted.stage) posted.jobId
      posted.owner).setPhase i (.acknowledging posted rest)) := by
  have hinv := h.calls i c hc
  rw [hphase] at hinv
  have howner : posted.owner = i := hinv.owner
  have hjob : posted.jobId = c.call.jobId := hinv.job
  rw [howner, hjob]
  refine h.move hc (by rw [hphase]; rfl) rfl ?_ (owners_enqueue h hc _ _) ?_ h.executed
  · intro j call hne _
    exact untouched_enqueue _ _ hne
  · exact holding_enqueue hinv.none hinv.computed hinv.heard

/-- A step that only writes what no call depends on. -/
theorem Inv.idle (h : Inv pipeline s) (hc : s.calls[i]? = some c) (hlive : c.phase.live = true)
    {phase : Phase} (hcalls : s'.calls = s.calls) (hqueue : s'.queue = s.queue)
    (houtputs : s'.stageOutputs = s.stageOutputs) (hfiles : s'.audioFiles = s.audioFiles)
    (hexecuted : s'.executed = s.executed) (hphase : PhaseInv pipeline s i c.call phase) :
    Inv pipeline (s'.setPhase i phase) := by
  have hsame : ∀ (j : Nat) (call : LiteCall), Untouched pipeline j call s s' := fun j call =>
    ⟨by simp only [mine, hqueue], by simp only [LiteState.outputs, houtputs], by rw [hfiles]⟩
  refine h.move hc hlive hcalls (fun j call _ _ => hsame j call) ?_ ?_ ?_
  · exact hqueue ▸ h.owners
  · exact hphase.frame (hsame i c.call)
  · exact hexecuted ▸ h.executed

/-- A call that is over leaves nothing that other calls depend on. -/
theorem Inv.cleanUp (h : Inv pipeline s) (hc : s.calls[i]? = some c) (hlive : c.phase.live = true)
    {phase : Phase} (hcalls : s'.calls = s.calls)
    (hothers : ∀ (j : Nat) (call : LiteCall), i ≠ j → c.call.jobId ≠ call.jobId →
      Untouched pipeline j call s s')
    (howners : ∀ posted ∈ s'.queue, posted.owner < s.calls.length)
    (hexecuted : ∀ e ∈ s'.executed, ∃ c : CallState, s.calls[e.owner]? = some c ∧
      OwnRequest pipeline c.call e.request)
    (hphase : PhaseInv pipeline s i c.call phase) (hdead : phase.live = false) :
    Inv pipeline ((s'.cleanUp c.call i).setPhase i phase) := by
  refine h.move hc hlive hcalls ?_ howners (hphase.of_dead hdead) hexecuted
  intro j call hne hjob
  exact (hothers j call hne hjob).trans (untouched_cleanUp hjob hne)

theorem owners_take (h : Inv pipeline s) {stage : Stage} (hhead : s.head? stage = some posted) :
    ∀ other ∈ (s.take stage posted).queue, other.owner < s.calls.length := by
  intro other hother
  obtain ⟨before, after, hqueue, htake⟩ := queue_take hhead
  rw [htake] at hother
  apply h.owners other
  rw [hqueue]
  rcases List.mem_append.mp hother with hbefore | hafter
  · exact List.mem_append_left _ hbefore
  · exact List.mem_append_right _ (List.mem_cons_of_mem _ hafter)

/-- The call has taken its own envelope. -/
theorem working_take {call : LiteCall} {stage : Stage} (h : Holding pipeline s i call)
    (hhead : s.head? stage = some posted) (howner : posted.owner = i) :
    Working pipeline (s.take stage posted) i call posted posted.stage := by
  obtain ⟨hmem, hnone⟩ := mine_take hhead howner h.one
  obtain ⟨hjob, hcomputed⟩ := h.own posted hmem
  exact ⟨hnone, howner, hjob, hcomputed, h.heard⟩

theorem Inv.handle (h : Inv pipeline s) (hc : s.calls[i]? = some c) {stage : Stage}
    (hphase : c.phase = .polling (stage :: rest)) (hhead : s.head? stage = some posted)
    (howner : posted.owner = i) :
    Inv pipeline (handleStage pipeline (s.take stage posted) c.call i posted rest) := by
  have hinv := h.calls i c hc
  rw [hphase] at hinv
  have hworking := working_take hinv hhead howner
  have hlive : c.phase.live = true := by rw [hphase]; rfl
  have hothers : ∀ (j : Nat) (call : LiteCall), i ≠ j → c.call.jobId ≠ call.jobId →
      Untouched pipeline j call s (s.take stage posted) :=
    fun j call hne _ => untouched_take hhead (howner ▸ hne)
  have hmove : ∀ {phase : Phase}, PhaseInv pipeline (s.take stage posted) i c.call phase →
      Inv pipeline ((s.take stage posted).setPhase i phase) :=
    fun hnew => h.move hc hlive rfl hothers (owners_take h hhead) hnew h.executed
  unfold handleStage
  split
  next hstage =>
    rw [hstage] at hworking
    have hnext := hworking.computed.prepared
    rw [← hstage] at hnext
    exact hmove ⟨hworking.none, howner, hworking.job, hnext, hworking.heard⟩
  next hstage => exact hmove ⟨hworking, by rw [hstage]; rfl, rfl⟩
  next hstage => exact hmove ⟨hworking, by rw [hstage]; rfl, rfl⟩
  next hstage => exact hmove ⟨hworking, by rw [hstage]; rfl, rfl⟩
  next hstage =>
    rw [hstage] at hworking
    have hjob := hworking.job
    rw [hjob]
    split
    next => exact h.cleanUp hc hlive rfl hothers (owners_take h hhead) h.executed trivial rfl
    next transcript hmerged =>
      split
      · exact hmove ⟨_, hworking.computed, rfl, hmerged⟩
      · exact hmove ⟨_, hworking.computed, rfl, hmerged⟩

theorem Inv.finish (h : Inv pipeline s) (hc : s.calls[i]? = some c) {request : EngineRequest}
    (hphase : c.phase = .executing posted request rest) :
    Inv pipeline (finishStage pipeline s c.call i posted request rest) := by
  have hinv := h.calls i c hc
  rw [hphase] at hinv
  obtain ⟨hworking, hstage, rfl⟩ := hinv
  have hlive : c.phase.live = true := by rw [hphase]; rfl
  let request :=
    ownRequest pipeline c.call posted.stage posted.taskId (s.outputs c.call.jobId)
  have hown : (requestFor pipeline s c.call posted).withAudio
      (s.audioFiles (audioPath pipeline c.call i)) = request := by
    have hheard := hworking.heard
    rw [Heard] at hheard
    simp only [requestFor, EngineRequest.withAudio, request, ownRequest, hworking.job, hheard]
  have hexecuted : ∀ e ∈ (s.log posted.owner request).executed,
      ∃ c : CallState, s.calls[e.owner]? = some c ∧ OwnRequest pipeline c.call e.request := by
    intro e he
    rcases List.mem_append.mp he with hold | hnew
    · exact h.executed e hold
    · rw [List.mem_singleton.mp hnew]
      exact ⟨c, hworking.owner ▸ hc, rfl⟩
  rcases hrun : executeStage pipeline request with _ | payload
  · simp only [finishStage, hown, hrun]
    refine h.cleanUp hc hlive ?_ ?_ ?_ hexecuted trivial rfl
    · rfl
    · exact fun j call _ _ => ⟨rfl, rfl, rfl⟩
    · exact h.owners
  · simp only [finishStage, hown, hrun, hworking.job]
    let s' := (s.log posted.owner request).recordStageOutput c.call.jobId posted.stage payload
    have hnext : Working pipeline s' i c.call posted (nextStage pipeline.profile posted.stage) := by
      refine ⟨hworking.none, hworking.owner, hworking.job, ?_, hworking.heard⟩
      rw [outputs_record, if_pos rfl]
      exact hworking.computed.executed hstage hrun
    have hothers : ∀ (j : Nat) (call : LiteCall), i ≠ j → c.call.jobId ≠ call.jobId →
        Untouched pipeline j call s s' := by
      intro j call _ hjob
      have hlogged : Untouched pipeline j call s (s.log posted.owner request) := ⟨rfl, rfl, rfl⟩
      exact hlogged.trans (untouched_record posted.stage payload hjob)
    have hmove : ∀ phase, PhaseInv pipeline s' i c.call phase → Inv pipeline (s'.setPhase i phase) :=
      fun _ hphase => h.move hc hlive rfl hothers h.owners hphase hexecuted
    split
    · exact hmove (.storing posted payload rest) hnext
    · exact hmove (.advancing posted rest) hnext

end Proceed

end Moves

section Runs

variable {pipeline : LitePipeline} {s s' : LiteState} {i : Nat} {c : CallState}

theorem Inv.proceed (h : Inv pipeline s) (hc : s.calls[i]? = some c)
    (hok : ∀ stage ∈ c.phase.polled, ∀ posted ∈ s.head? stage, posted.owner = i) :
    Inv pipeline (proceed pipeline s i c.call c.phase) := by
  have hinv := h.calls i c hc
  generalize hphase : c.phase = phase at hok hinv ⊢
  have hlive : phase.live = true → c.phase.live = true := fun hl => by rw [hphase, hl]
  cases phase with
  | writing => exact h.enter hc hphase
  | entering => exact h.publishFirst hc hphase _
  | polling stages =>
      cases stages with
      | nil => exact h.idle hc (hlive rfl) rfl rfl rfl rfl rfl hinv
      | cons stage rest =>
          simp only [Lite.proceed]
          split
          next => exact h
          next posted hhead => exact h.handle hc hphase hhead (hok stage rfl posted hhead)
  | executing posted request rest => exact h.finish hc hphase
  | storing posted payload rest => exact h.idle hc (hlive rfl) rfl rfl rfl rfl rfl hinv
  | advancing posted rest => exact h.advance hc hphase
  | acknowledging posted rest => exact h.idle hc (hlive rfl) rfl rfl rfl rfl rfl hinv
  | publishing posted result => exact h.idle hc (hlive rfl) rfl rfl rfl rfl rfl hinv
  | finishing posted result =>
      refine h.cleanUp hc (hlive rfl) ?_ ?_ ?_ ?_ hinv rfl
      · rfl
      · exact fun j call _ _ => ⟨rfl, rfl, rfl⟩
      · exact h.owners
      · exact h.executed
  | returned | raised => exact h

theorem Inv.raise (h : Inv pipeline s) (hc : s.calls[i]? = some c) :
    Inv pipeline (raiseCall s i c.call c.phase) := by
  have hcleaned : c.phase.live = true → Inv pipeline ((s.cleanUp c.call i).setPhase i .raised) :=
    fun hlive => h.cleanUp hc hlive rfl (fun j call _ _ => .refl) h.owners h.executed trivial rfl
  cases hphase : c.phase with
  | writing => exact h.idle hc (by rw [hphase]; rfl) rfl rfl rfl rfl rfl trivial
  | returned | raised => exact h
  | _ => exact hcleaned (by rw [hphase]; rfl)

theorem Inv.expire (h : Inv pipeline s) (hc : s.calls[i]? = some c) :
    Inv pipeline (expire s i c.phase) := by
  have hinv := h.calls i c hc
  generalize hphase : c.phase = phase at hinv ⊢
  unfold Lite.expire
  split
  · exact h.idle hc (by rw [hphase]; rfl) rfl rfl rfl rfl rfl hinv
  · exact h

theorem mine_fresh (h : Inv pipeline s) : mine s s.calls.length = [] := by
  rw [mine, List.filter_eq_nil_iff]
  intro posted hposted
  have hlt := h.owners posted hposted
  simp only [decide_eq_true_eq]
  omega

theorem Inv.startCall (h : Inv pipeline s) {call : LiteCall}
    (hok : ∀ c ∈ s.calls, c.phase.live = true → c.call.jobId ≠ call.jobId) :
    Inv pipeline (startCall pipeline s call) := by
  unfold Lite.startCall
  split
  · exact h.start rfl rfl (fun hl => nomatch hl) (fun j other _ _ => ⟨rfl, rfl, rfl⟩) trivial rfl
  · have hnew : Inv pipeline
        { s with
            stageOutputs := s.stageOutputs.set call.jobId []
            calls := s.calls ++ [⟨call, .writing⟩] } := by
      have hothers : ∀ (j : Nat) (other : LiteCall), s.calls.length ≠ j →
          (Phase.writing.live = true → call.jobId ≠ other.jobId) →
            Untouched pipeline j other s
              { s with
                  stageOutputs := s.stageOutputs.set call.jobId []
                  calls := s.calls ++ [⟨call, .writing⟩] } := by
        intro j other _ hjob
        exact ⟨rfl, (outputs_set call.jobId other.jobId []).trans (if_neg (hjob rfl)), rfl⟩
      refine h.start rfl rfl (fun _ => hok) hothers ?_ rfl
      exact ⟨mine_fresh h, (outputs_set call.jobId call.jobId []).trans (if_pos rfl)⟩
    have hcall : (s.calls ++ [(⟨call, .writing⟩ : CallState)])[s.calls.length]? =
        some ⟨call, .writing⟩ := by
      simp
    split
    · exact hnew
    · exact hnew.enter hcall rfl

theorem Inv.next (h : Inv pipeline s) (action : LiteAction) (hok : Separate s action) :
    Inv pipeline (s.next pipeline action) := by
  cases action with
  | start call => exact h.startCall hok
  | proceed i =>
      simp only [LiteState.next]
      split
      next => exact h
      next c hc => exact h.proceed hc (hok c hc)
  | expire i =>
      simp only [LiteState.next]
      split
      next => exact h
      next c hc => exact h.expire hc
  | fail i =>
      simp only [LiteState.next]
      split
      next => exact h
      next c hc => exact h.raise hc

theorem Inv.isolated (h : Inv pipeline s) : Isolated pipeline s where
  returned i c result hc hphase := by
    have hinv := h.calls i c hc
    rw [hphase] at hinv
    exact hinv
  executed := h.executed

theorem inv_fresh (audioFiles : AudioPath → Option Bytes) (documents : Dict Config) :
    Inv pipeline (freshState audioFiles documents) where
  owners posted hposted := by cases hposted
  calls j c hc := by simp [freshState] at hc
  distinct j k c d hc := by simp [freshState] at hc
  executed e he := by cases he

/-- In every run in which no call polls a queue whose next envelope is that of another call,
and calls under way have different job ids, the jobs are isolated. -/
theorem isolated_of_separate {audioFiles : AudioPath → Option Bytes} {documents : Dict Config}
    (run : LiteRun pipeline Separate (freshState audioFiles documents) s) :
    Isolated pipeline s := by
  refine (run.invariant (inv_fresh audioFiles documents) ?_).isolated
  rintro s action s' h rfl hok
  exact h.next action hok

end Runs

section Samples

def echoEngine (_ : StageBinding) (request : EngineRequest) : Except String Config :=
  .ok [("text", .str request.jobId)]

/-- An ephemeral pipeline of the core profile. -/
def corePipeline : LitePipeline where
  profile := .core
  persistArtifacts := false
  ephemeralMode := true
  fileStore := false
  diarizeModelId := "msdd"
  bindings _ := some ⟨"lite-transcribe", "inproc", true⟩
  process := echoEngine
  executors _ := none

def liteCall (jobId : String) (sample : UInt8) : LiteCall := ⟨jobId, [], [sample]⟩

def emptyPipeline : LiteState := freshState (fun _ => none) []

/-- The awaits of a call whose every poll finds its envelope. -/
def wholeCall (i : Nat) : List LiteAction := List.replicate 11 (.proceed i)

/-- Two calls, the second of which is made while the first is under way. -/
def separateActions : List LiteAction :=
  [.start (liteCall "a" 1), .proceed 0, .proceed 0, .start (liteCall "b" 2)] ++
    List.replicate 9 (.proceed 0) ++ wholeCall 1

/-- A call fails with its envelope in the queue, and another one is made. -/
def leftoverActions : List LiteAction :=
  [.start (liteCall "a" 1), .proceed 0, .fail 0, .start (liteCall "b" 2)] ++ wholeCall 1

def Phase.result? : Phase → Option LiteResult
  | returned result => some result
  | _ => none

theorem result?_eq {phase : Phase} {result : LiteResult} (h : phase.result? = some result) :
    phase = .returned result := by
  cases phase with
  | returned result' => rw [Option.some.inj h]
  | _ => cases h

/-- The job id of a call, and that of what it returned. -/
def outcome (s : LiteState) (i : Nat) : Option (String × Option String) :=
  (s.calls[i]?).map fun c => (c.call.jobId, c.phase.result?.map (·.jobId))

def separateState : LiteState := separateActions.foldl (LiteState.next corePipeline) emptyPipeline

def leftoverState : LiteState := leftoverActions.foldl (LiteState.next corePipeline) emptyPipeline

end Samples

theorem isolated_of_separate_sample :
    outcome separateState 0 = some ("a", some "a") ∧
      outcome separateState 1 = some ("b", some "b") ∧ Isolated corePipeline separateState := by
  have hpermitted :
      AllPermitted (LiteState.next corePipeline) Separate emptyPipeline separateActions := by
    decide +kernel
  refine ⟨by decide +kernel, by decide +kernel, ?_⟩
  exact isolated_of_separate (ActionRun.of_permitted hpermitted)

/-- A call returns the transcript of the job of an earlier call that failed. -/
theorem not_isolated :
    ¬ ∀ (pipeline : LitePipeline) (audioFiles : AudioPath → Option Bytes)
      (documents : Dict Config) (s : LiteState),
      LiteRun pipeline AnyCall (freshState audioFiles documents) s → Isolated pipeline s := by
  intro hclaim
  have hpermitted :
      AllPermitted (LiteState.next corePipeline) AnyCall emptyPipeline leftoverActions := by
    simp [leftoverActions, wholeCall, AllPermitted, AnyCall]
  have hisolated := hclaim _ _ _ leftoverState (ActionRun.of_permitted hpermitted)
  have houtcome : outcome leftoverState 1 = some ("b", some "a") := by decide +kernel
  obtain ⟨c, hc, hjobs⟩ := Option.map_eq_some_iff.mp houtcome
  obtain ⟨hcall, hreturned⟩ := Prod.mk.inj hjobs
  obtain ⟨result, hresult, hjob⟩ := Option.map_eq_some_iff.mp hreturned
  obtain ⟨_, _, hown, _⟩ := hisolated.returned 1 c result hc (result?_eq hresult)
  rw [hjob, hcall] at hown
  exact absurd hown (by decide)

end Dalston.Orchestrator.Lite
