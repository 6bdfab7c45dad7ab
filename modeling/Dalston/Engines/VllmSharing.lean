import Dalston.Engines.VllmAsr

/-!
# One vLLM instance

The three owners share one instance as long as no adapter swaps it. A swap gives up one of
three references to an instance that stays alive, and creates a second one beside it. So a
process has one instance when every request names no model or the default one.
-/

namespace Dalston.Engines.VllmAsr

open Foundation

section Claim

variable (config : Config)

/-- The request is transcribed by an instance of its model, or fails for a reason of its own. -/
def Answered (p : Process) (r : Request) : Reply → Prop
  | .transcript i => p.instances[i]? = some (r.model config)
  | .failed failure => r.Suffers failure
  | .ready => False

/-- A later request for any model is transcribed by an instance of it, if nothing outside the
process fails. -/
def Serves (p : Process) : Prop :=
  ∀ (c : Call) (side : Side) (r : Request), c.request? = some (side, r) → r.Succeeds →
    ∃ i, ((c.code config).run p).1 = .transcript i ∧
      ((c.code config).run p).2.instances[i]? = some (r.model config)

/-- One model per process. -/
structure OneModel (pool : VllmPool) : Prop where
  answered : ∀ ret ∈ pool.returned, ∀ side r, ret.call.request? = some (side, r) →
    Answered config pool.store r ret.result
  kept : ∀ i side, pool.next? i = some (.unload side) →
    ∀ k, (pool.store.adapter side).llm = some k → k ∉ pool.store.inUse
  single : ∀ i j, pool.store.Alive i → pool.store.Alive j → i = j
  serves : Serves config pool.store

/-- The request that a turn brings in. -/
def arriving : Turn Call Effect → Option (Side × Request)
  | .start c => c.request?
  | .move _ | .fail _ | .outside _ => none

/-- Every request names no model or the default one. -/
def NamesDefault (pool : VllmPool) (turn : Turn Call Effect) : Prop :=
  AnyRequests pool turn ∧ ∀ q ∈ arriving turn, q.2.model config = config.defaultModelId

instance (pool : VllmPool) (turn : Turn Call Effect) : Decidable (NamesDefault config pool turn) :=
  inferInstanceAs (Decidable (_ ∧ _))

end Claim

section Serving

variable {config : Config}

/-- What an adapter remembers is the model of its instance. -/
def Consistent (p : Process) : Prop :=
  ∀ side model, (p.adapter side).loadedModelId = some model →
    ∃ i, (p.adapter side).llm = some i ∧ p.instances[i]? = some model

/-- The inference uses the adapter's instance. -/
theorem run_infer {side : Side} {r : Request} {p : Process} {i : Nat}
    (hi : (p.adapter side).llm = some i) (hr : r.chats = true) :
    ((infer side r).run p).1 = .transcript i ∧
      ((infer side r).run p).2.instances = p.instances := by
  simp [infer, hi, hr]

theorem run_constructInstance (side : Side) {r : Request} (model : String) (p : Process)
    (hr : r.constructs = true) :
    ((constructInstance side r model).run p).1 = .ok () ∧
      (((constructInstance side r model).run p).2.adapter side).llm = some p.instances.length ∧
      ((constructInstance side r model).run p).2.instances = p.instances ++ [model] := by
  cases side <;> simp [constructInstance, hr, Process.adapter, Process.setAdapter]

/-- After the check the adapter has an instance of the model. -/
theorem run_ensureModelLoaded (config : Config) {p : Process} (hp : Consistent p) (side : Side)
    {r : Request} (model : String) (hr : r.Succeeds) :
    ((ensureModelLoaded config side r model).run p).1 = .ok () ∧
      ∃ i, (((ensureModelLoaded config side r model).run p).2.adapter side).llm = some i ∧
        ((ensureModelLoaded config side r model).run p).2.instances[i]? = some model := by
  obtain ⟨hfetch, hconstruct, hreconfigure, _⟩ := hr
  cases side with
  | batch =>
      by_cases hhit : p.batch.loadedModelId = some model
      · have hinstance := hp .batch model hhit
        simpa [ensureModelLoaded, hhit] using hinstance
      · obtain ⟨hok, hllm, hinstances⟩ := run_constructInstance .batch model
          ((unloadCurrent .batch).run p).2 hconstruct
        simp [ensureModelLoaded, hhit, swapBatch, Program.run_bind, hfetch, hok, hreconfigure,
          hllm, hinstances]
  | realtime =>
      by_cases hhit : p.realtime.loadedModelId = some model ∧ p.realtime.llm.isSome
      · have hinstance := hp .realtime model hhit.1
        simpa [ensureModelLoaded, hhit] using hinstance
      · obtain ⟨hok, hllm, hinstances⟩ := run_constructInstance .realtime model
          ((unloadCurrent .realtime).run p).2 hconstruct
        simp [ensureModelLoaded, hhit, swapRealtime, Program.run_bind, hok, hllm, hinstances]

theorem run_transcribe {p : Process} (hp : Consistent p) {side : Side} {r : Request}
    (hr : r.Succeeds) :
    ∃ i, ((transcribe config side r).run p).1 = .transcript i ∧
      ((transcribe config side r).run p).2.instances[i]? = some (r.model config) := by
  obtain ⟨hok, i, hllm, hinstance⟩ :=
    run_ensureModelLoaded config hp side (r.model config) hr
  obtain ⟨hreply, hinstances⟩ := run_infer hllm hr.2.2.2
  refine ⟨i, ?_, ?_⟩
  · simp [transcribe, Program.run_bind, hok, afterEnsure, hreply]
  · simp [transcribe, Program.run_bind, hok, afterEnsure, hinstances, hinstance]

theorem serves_of_consistent {p : Process} (hp : Consistent p) : Serves config p := by
  intro c side r hrequest hr
  cases c with
  | loadModels r' => cases hrequest
  | task r' | http r' | utterance r' =>
      cases hrequest
      exact run_transcribe hp hr

end Serving

section Protocol

variable {config : Config}

/-- Where a request stands, or the start of the realtime adapter. -/
inductive Phase
  | checking
  /-- The adapter has been found to stand for the model. -/
  | checked
  | inferring (i : Nat)
  | inferred (i : Nat)
  /-- The start is recorded. -/
  | recorded
  /-- The adapter is swapping its instance, or has none. -/
  | swapping

/-- The check finds what the call asks for. -/
def Hit (config : Config) (p : Process) : Call → Prop
  | .loadModels _ => p.realtime.llm.isSome
  | .task r | .http r => p.batch.loadedModelId = some (r.model config)
  | .utterance r => p.realtime.loadedModelId = some (r.model config) ∧ p.realtime.llm.isSome

inductive Moves (config : Config) (c : Call) : Phase → Process → Effect → Phase → Prop
  | hit (p : Process) (h : Hit config p c) : Moves config c .checking p .read .checked
  | miss (p : Process) (h : ¬ Hit config p c) : Moves config c .checking p .read .swapping
  | record (p : Process) (h : c.request? = none) :
      Moves config c .checked p (.record .realtime config.defaultModelId) .recorded
  | begin (p : Process) {side : Side} {r : Request} (hc : c.request? = some (side, r)) {i : Nat}
      (h : (p.adapter side).llm = some i) :
      Moves config c .checked p (.beginChat side) (.inferring i)
  | idle (p : Process) {side : Side} {r : Request} (hc : c.request? = some (side, r))
      (h : (p.adapter side).llm = none) :
      Moves config c .checked p (.beginChat side) .swapping
  | finish (p : Process) (i : Nat) :
      Moves config c (.inferring i) p (.endChat i) (.inferred i)
  | swap (p : Process) (e : Effect) : Moves config c .swapping p e .swapping

/-- What a call returns from where it stands. -/
def Ends (c : Call) (reply : Reply) : Phase → Prop
  | .checking | .checked | .inferring _ => False
  | .inferred i => ∃ side r, c.request? = some (side, r) ∧
      (reply = .transcript i ∨ reply = .failed .chat ∧ r.chats = false)
  | .recorded => c.request? = none
  | .swapping => True

/-- A swap follows no rules. -/
theorem follows_swapping {A : Type} {c : Call} {J : Process → Prop} (p : Work A)
    {Q : A → Phase → Prop} (hQ : ∀ a, Q a .swapping) :
    p.Follows (Moves config c) J Q .swapping :=
  Program.follows_of_only (G := fun _ => True) (fun _ _ => trivial)
    (fun s e _ => .swap s e) hQ

theorem follows_infer {J : Process → Prop} {c : Call} {side : Side} {r : Request}
    (hc : c.request? = some (side, r)) :
    (infer side r).Follows (Moves config c) J (Ends c) .checked := by
  apply Program.follows_perform_bind.mpr
  intro p _
  cases hllm : (p.adapter side).llm with
  | none => exact ⟨.swapping, .idle p hc hllm, trivial⟩
  | some i =>
      refine ⟨.inferring i, .begin p hc hllm, ?_⟩
      apply Program.follows_perform_bind.mpr
      intro p' _
      refine ⟨.inferred i, .finish p' i, side, r, hc, ?_⟩
      cases hchats : r.chats
      · exact .inr ⟨rfl, rfl⟩
      · exact .inl rfl

/-- The check of the adapters decides whether the call goes on or swaps. -/
theorem follows_ensureModelLoaded {J : Process → Prop} {c : Call} {side : Side} {r : Request}
    {model : String}
    (hhit : ∀ p, Hit config p c ↔ (p.adapter side).loadedModelId = some model ∧
      (side = .realtime → (p.adapter side).llm.isSome)) :
    (ensureModelLoaded config side r model).Follows (Moves config c) J
      (fun a l => a = .ok () ∧ l = .checked ∨ l = .swapping) .checking := by
  apply Program.follows_perform_bind.mpr
  intro p _
  by_cases h : Hit config p c
  · refine ⟨.checked, .hit p h, ?_⟩
    obtain ⟨hloaded, hllm⟩ := (hhit p).mp h
    cases side with
    | batch =>
        rw [Process.adapter] at hloaded
        simp [hloaded]
    | realtime =>
        rw [Process.adapter] at hloaded hllm
        simp [hloaded, hllm rfl]
  · refine ⟨.swapping, .miss p h, ?_⟩
    exact follows_swapping _ fun _ => .inr rfl

theorem follows_transcribe {J : Process → Prop} {c : Call} {side : Side} {r : Request}
    (hc : c.request? = some (side, r))
    (hhit : ∀ p, Hit config p c ↔ (p.adapter side).loadedModelId = some (r.model config) ∧
      (side = .realtime → (p.adapter side).llm.isSome)) :
    (transcribe config side r).Follows (Moves config c) J (Ends c) .checking := by
  apply Program.follows_bind.mpr
  refine Program.follows_mono (follows_ensureModelLoaded hhit) ?_
  rintro loaded l (⟨rfl, rfl⟩ | rfl)
  · exact follows_infer hc
  · exact follows_swapping _ fun _ => trivial

theorem follows_loadModels {J : Process → Prop} (r : Request) :
    (loadModels config r).Follows (Moves config (.loadModels r)) J (Ends (.loadModels r))
      .checking := by
  apply Program.follows_perform_bind.mpr
  intro p _
  by_cases hllm : p.realtime.llm.isSome
  · refine ⟨.checked, .hit p hllm, ?_⟩
    rw [if_pos hllm]
    apply Program.follows_perform_bind.mpr
    intro p' _
    exact ⟨.recorded, .record p' rfl, rfl⟩
  · refine ⟨.swapping, .miss p hllm, ?_⟩
    exact follows_swapping _ fun _ => trivial

theorem follows_code {J : Process → Prop} (c : Call) :
    (c.code config).Follows (Moves config c) J (Ends c) .checking := by
  cases c with
  | loadModels r => exact follows_loadModels r
  | task r | http r => exact follows_transcribe rfl fun p => by simp [Hit, Process.adapter]
  | utterance r => exact follows_transcribe rfl fun p => by simp [Hit, Process.adapter]

end Protocol

section Invariant

variable {config : Config}

/-- The process has the one instance it was started with, and all owners refer to it. -/
structure Settled (config : Config) (p : Process) : Prop where
  runner : p.runner = 0
  batch : p.batch = ⟨some 0, some config.defaultModelId⟩
  llm : p.realtime.llm = some 0
  loaded : ∀ model, p.realtime.loadedModelId = some model → model = config.defaultModelId
  instances : p.instances = [config.defaultModelId]
  inUse : ∀ i ∈ p.inUse, i = 0

def Process.Ready (config : Config) (p : Process) : Prop :=
  p.realtime.loadedModelId = some config.defaultModelId

theorem settled_started : Settled config (Process.started config) where
  runner := rfl
  batch := rfl
  llm := rfl
  loaded _ h := nomatch h
  instances := rfl
  inUse _ h := nomatch h

namespace Settled

variable {p : Process}

theorem adapter_llm (hp : Settled config p) (side : Side) : (p.adapter side).llm = some 0 := by
  cases side with
  | batch => exact congrArg Adapter.llm hp.batch
  | realtime => exact hp.llm

theorem alive (hp : Settled config p) {i : Nat} (h : p.Alive i) : i = 0 := by
  rcases h with h | h | h | h
  · exact h.symm.trans hp.runner
  · exact Option.some.inj (h.symm.trans (hp.adapter_llm .batch))
  · exact Option.some.inj (h.symm.trans hp.llm)
  · exact hp.inUse i h

theorem consistent (hp : Settled config p) : Consistent p := by
  intro side model hloaded
  refine ⟨0, hp.adapter_llm side, ?_⟩
  have hmodel : model = config.defaultModelId := by
    cases side with
    | batch =>
        rw [Process.adapter, hp.batch] at hloaded
        exact (Option.some.inj hloaded).symm
    | realtime => exact hp.loaded model hloaded
  rw [hp.instances, hmodel]
  rfl

theorem record (hp : Settled config p) :
    Settled config (apply (Effect.record .realtime config.defaultModelId) p) :=
  { hp with loaded := fun _ h => (Option.some.inj h).symm }

theorem beginChat (hp : Settled config p) (side : Side) :
    Settled config (apply (Effect.beginChat side) p) := by
  refine { hp with inUse := ?_ }
  intro i hi
  rcases List.mem_append.mp hi with hi | hi
  · rw [hp.adapter_llm side] at hi
    simpa using hi
  · exact hp.inUse i hi

theorem endChat (hp : Settled config p) (i : Nat) : Settled config (apply (Effect.endChat i) p) :=
  { hp with inUse := fun k hk => hp.inUse k (List.mem_of_mem_erase hk) }

end Settled

/-- The call asks for the default model, and an utterance finds the adapter started. -/
def Asks (config : Config) (p : Process) (c : Call) : Prop :=
  ∀ side r, c.request? = some (side, r) →
    r.model config = config.defaultModelId ∧ (side = .realtime → p.Ready config)

def Phase.Fine (config : Config) (p : Process) : Phase → Prop
  | checking | checked => True
  | inferring i | inferred i => i = 0
  | recorded => p.Ready config
  | swapping => False

theorem hit_of_settled {p : Process} (hp : Settled config p) {c : Call} (hc : Asks config p c) :
    Hit config p c := by
  have hllm : p.realtime.llm.isSome := by simp [hp.llm]
  cases c with
  | loadModels r => exact hllm
  | task r | http r => simp [Hit, hp.batch, (hc _ _ rfl).1]
  | utterance r =>
      obtain ⟨hmodel, hready⟩ := hc _ _ rfl
      exact ⟨by rw [hmodel]; exact hready rfl, hllm⟩

/-- The step lemma: no call starts to swap. -/
theorem settled_moves {p : Process} (hp : Settled config p) {c : Call} (hc : Asks config p c)
    {l l' : Phase} (hl : l.Fine config p) {e : Effect} (h : Moves config c l p e l') :
    Settled config (apply e p) ∧ l'.Fine config (apply e p) ∧
      (p.Ready config → (apply e p).Ready config) := by
  cases h with
  | hit _ _ => exact ⟨hp, trivial, id⟩
  | miss _ h => exact absurd (hit_of_settled hp hc) h
  | record _ _ => exact ⟨hp.record, rfl, fun _ => rfl⟩
  | begin _ _ h =>
      have hi := Option.some.inj (h.symm.trans (hp.adapter_llm _))
      exact ⟨hp.beginChat _, hi, id⟩
  | idle _ _ h => exact nomatch h.symm.trans (hp.adapter_llm _)
  | finish _ i => exact ⟨hp.endChat i, hl, id⟩
  | swap _ _ => exact hl.elim

/-- Every owner refers to the one instance, every call under way is on its way to it, and the
requests that have returned are answered. -/
structure Shares (config : Config) (s : Shared Call Effect Process Reply)
    (gs : Multiset (Local Call Process Phase)) : Prop where
  settled : Settled config s.store
  serving : (∃ ret ∈ s.returned, ret.result = .ready) → s.store.Ready config
  calls : ∀ g ∈ gs, Asks config s.store g.call ∧ g.state.Fine config s.store
  answered : ∀ ret ∈ s.returned, ∀ side r, ret.call.request? = some (side, r) →
    Answered config s.store r ret.result

theorem fine_of_ready {p p' : Process} {l : Phase} (h : p.Ready config → p'.Ready config)
    (hl : l.Fine config p) : l.Fine config p' := by
  cases l with
  | recorded => exact h hl
  | checking | checked | inferring i | inferred i | swapping => exact hl

theorem asks_of_ready {p p' : Process} {c : Call} (h : p.Ready config → p'.Ready config)
    (hc : Asks config p c) : Asks config p' c :=
  fun side r hr => ⟨(hc side r hr).1, fun hside => h ((hc side r hr).2 hside)⟩

theorem answered_of_settled {p p' : Process} (hp : Settled config p) (hp' : Settled config p')
    {r : Request} {reply : Reply} (h : Answered config p r reply) :
    Answered config p' r reply := by
  cases reply with
  | transcript i =>
      rw [Answered, hp.instances] at h
      rwa [Answered, hp'.instances]
  | failed failure | ready => exact h

/-- A request that ends without a swap is answered. -/
theorem answered_of_ends {p : Process} (hp : Settled config p) {c : Call} (hc : Asks config p c)
    {l : Phase} (hl : l.Fine config p) {reply : Reply} (h : Ends c reply l) {side : Side}
    {r : Request} (hr : c.request? = some (side, r)) : Answered config p r reply := by
  cases l with
  | checking | checked | inferring i => exact h.elim
  | swapping => exact hl.elim
  | recorded => exact nomatch hr.symm.trans h
  | inferred i =>
      obtain ⟨side', r', hr', h⟩ := h
      obtain ⟨rfl, rfl⟩ := Prod.mk.inj (Option.some.inj (hr.symm.trans hr'))
      have hi : i = 0 := hl
      rcases h with rfl | ⟨rfl, hchats⟩
      · rw [Answered, hp.instances, hi, (hc side r hr).1]
        rfl
      · exact hchats

theorem ready_of_ends {p : Process} {c : Call} {l : Phase} (hl : l.Fine config p)
    (h : Ends c .ready l) : p.Ready config := by
  cases l with
  | checking | checked | inferring i => exact h.elim
  | swapping => exact hl.elim
  | recorded => exact hl
  | inferred i =>
      obtain ⟨_, _, _, h | ⟨h, _⟩⟩ := h
      · cases h
      · cases h

theorem shares_preserved :
    Preserved (Call.code config) (Moves config) (fun _ => True) Ends (fun _ => .checking)
      (NamesDefault config) (Shares config) := by
  constructor
  case code => exact fun _ c _ => follows_code c
  case store => exact fun _ _ _ => trivial
  case start =>
    intro pool gs c _ h hok
    refine { h with calls := Multiset.forall_mem_cons.mpr ⟨⟨?_, trivial⟩, h.calls⟩ }
    intro side r hr
    refine ⟨hok.2 (side, r) hr, ?_⟩
    rintro rfl
    cases c with
    | utterance r' => exact h.serving hok.1
    | loadModels r' | task r' | http r' => cases hr
  case move =>
    intro pool g gs i e l h _ _ _ hmove
    obtain ⟨hg, hgs⟩ := Multiset.forall_mem_cons.mp h.calls
    obtain ⟨hsettled, hfine, hready⟩ := settled_moves h.settled hg.1 hg.2 hmove
    refine ⟨hsettled, fun hret => hready (h.serving hret), ?_, ?_⟩
    · refine Multiset.forall_mem_cons.mpr ⟨⟨asks_of_ready hready hg.1, hfine⟩, ?_⟩
      exact fun g' hg' => ⟨asks_of_ready hready (hgs g' hg').1, fine_of_ready hready (hgs g' hg').2⟩
    · intro ret hret side r hr
      exact answered_of_settled h.settled hsettled (h.answered ret hret side r hr)
  case done =>
    intro pool g gs reply h hend
    obtain ⟨hg, hgs⟩ := Multiset.forall_mem_cons.mp h.calls
    refine ⟨h.settled, ?_, hgs, ?_⟩
    · rintro ⟨ret, hret, hready⟩
      rcases List.mem_cons.mp hret with rfl | hret
      · rw [show reply = .ready from hready] at hend
        exact ready_of_ends hg.2 hend
      · exact h.serving ⟨ret, hret, hready⟩
    · intro ret hret side r hr
      rcases List.mem_cons.mp hret with rfl | hret
      · exact answered_of_ends h.settled hg.1 hg.2 hend hr
      · exact h.answered ret hret side r hr
  case fail => exact fun _ _ _ _ _ _ hok => hok.1.elim
  case outside => exact fun _ _ _ _ _ hok => hok.1.elim

theorem shares_idle :
    Shares config (Pool.idle (Process.started config) : VllmPool).toShared 0 where
  settled := settled_started
  serving h := by
    obtain ⟨ret, hret, _⟩ := h
    exact absurd hret List.not_mem_nil
  calls g hg := absurd hg (Multiset.notMem_zero g)
  answered ret hret := absurd hret List.not_mem_nil

/-- No call under way is about to unload an instance. -/
theorem Shares.no_unload {s : Shared Call Effect Process Reply}
    {g : Local Call Process Phase} {gs : Multiset (Local Call Process Phase)}
    (h : Shares config s (g ::ₘ gs)) {t : Thread Call Effect Process Reply}
    (ht : t.Matches (Moves config) (fun _ => True) Ends g) {side : Side}
    (hnext : t.rest.next? = some (.unload side)) : False := by
  obtain ⟨l, hmove⟩ := Program.follows_next (s := s.store) ht.follows trivial hnext
  have hfine := (h.calls g (Multiset.mem_cons_self g gs)).2
  generalize g.state = l₀ at hmove hfine
  cases hmove with
  | swap _ _ => exact hfine

end Invariant

section Runs

variable {config : Config}

/-- A process whose requests all name no model or the default one has one instance, which
transcribes them all. -/
theorem one_model_of_default {pool : VllmPool}
    (run : Pool.Run (Call.code config) (NamesDefault config)
      (Pool.idle (Process.started config)) pool) :
    OneModel config pool := by
  obtain ⟨gs, hm, h⟩ := shares_preserved.run run ⟨0, Pool.matches_idle _, shares_idle⟩
  refine ⟨h.answered, ?_, ?_, serves_of_consistent h.settled.consistent⟩
  · intro i side hnext
    obtain ⟨t, ht, hnext⟩ := Option.bind_eq_some_iff.mp hnext
    obtain ⟨g, rest, rfl, hmatch, _⟩ := hm.split ht
    exact (h.no_unload hmatch hnext).elim
  · intro i j hi hj
    rw [h.settled.alive hi, h.settled.alive hj]

/-- A task that names a model, with nothing failing. -/
def taskFor (model : String) : Call := .task ⟨some model, true, true, true, true⟩

def smallConfig : Config := ⟨"voxtral", false⟩

/-- The realtime adapter starts, and a task and an utterance are transcribed side by side. -/
def defaultTurns : List (Turn Call Effect) :=
  [.start (.loadModels ⟨none, true, true, true, true⟩), .move 0, .move 0, .move 0,
    .start (taskFor "voxtral"), .start (.utterance ⟨none, true, true, true, true⟩),
    .move 0, .move 1, .move 1, .move 0, .move 0, .move 0, .move 0, .move 0]

/-- A task names another model. -/
def swapTurns : List (Turn Call Effect) :=
  .start (taskFor "qwen") :: List.replicate 4 (.move 0)

def smallPool (turns : List (Turn Call Effect)) : VllmPool :=
  (Pool.idle (Process.started smallConfig)).turns (Call.code smallConfig) turns

end Runs

theorem one_model_of_default_sample :
    (smallPool defaultTurns).returned.map (·.result) =
        [.transcript 0, .transcript 0, .ready] ∧
      OneModel smallConfig (smallPool defaultTurns) := by
  have hallowed : Pool.Allowed (Call.code smallConfig) (NamesDefault smallConfig)
      (Pool.idle (Process.started smallConfig)) defaultTurns := by
    decide +kernel
  exact ⟨by decide +kernel, one_model_of_default (Pool.run_of_allowed hallowed)⟩

/-- One task that names another model leaves two instances alive: the runner and the realtime
adapter keep the first. -/
theorem swap_doubles :
    ¬ ∀ (config : Config) (pool : VllmPool),
      Pool.Run (Call.code config) AnyRequests (Pool.idle (Process.started config)) pool →
        OneModel config pool := by
  intro hclaim
  have hallowed : Pool.Allowed (Call.code smallConfig) AnyRequests
      (Pool.idle (Process.started smallConfig)) swapTurns := by
    decide +kernel
  have hone := hclaim _ _ (Pool.run_of_allowed hallowed)
  have hfirst : (smallPool swapTurns).store.Alive 0 := by decide +kernel
  have hsecond : (smallPool swapTurns).store.Alive 1 := by decide +kernel
  exact absurd (hone.single 0 1 hfirst hsecond) Nat.zero_ne_one

end Dalston.Engines.VllmAsr
