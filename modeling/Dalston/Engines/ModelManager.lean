import Dalston.Foundation.Actions
import Dalston.Foundation.Dict

/-!
# The model manager of an engine

The manager loads a model when it is first acquired and counts its holders. It makes room by
evicting the idle model that was used longest ago, and a thread of its own evicts models that
have been idle for too long. Every call holds the lock from its first look at the models to its
last change.

## Implementation notes

A call is one step that takes the time it reads from the clock, what the model's loader answers
and whether the unloads go well. The callbacks for monitoring, which nothing sets, the telemetry
and the shutdown are left out.
-/

namespace Dalston.Engines.Manager

open Foundation

section Manager

variable {M : Type}

structure LoadedModel (M : Type) where
  modelId : String
  model : M
  loadedAt : Rat
  lastUsedAt : Rat
  refCount : Int := 0

structure ModelManager (M : Type) where
  ttlSeconds : Rat := 3600
  maxLoaded : Nat := 2
  models : Dict (LoadedModel M) := []

/-- Why a call raises. -/
inductive Raised
  | noneIdle (message : String)
  | load
  | unload

/-- What a call leaves, what it answers and which models it has unloaded. -/
structure Outcome (M A : Type) where
  manager : ModelManager M
  answer : Except Raised A
  evicted : List String

namespace ModelManager

/-- `", ".join(...)` of the models in use. -/
def inUse (models : Dict (LoadedModel M)) : String :=
  String.intercalate ", " (models.map fun kv => s!"{kv.1}(refs={kv.2.refCount})")

/-- The idle model that was used longest ago, the first of several. -/
def lru (m : ModelManager M) : Option String :=
  ((m.models.filter fun kv => kv.2.refCount = 0).argmin fun kv => kv.2.lastUsedAt).map Prod.fst

def evict (m : ModelManager M) (modelId : String) : ModelManager M :=
  { m with models := m.models.erase modelId }

/-- The id of the model that has to go, if one has to. -/
def maybeEvictForCapacity (m : ModelManager M) : Except Raised (Option String) :=
  if m.models.length < m.maxLoaded then .ok none
  else
    match m.lru with
    | none => .error (.noneIdle (s!"Cannot load model: {m.maxLoaded} models in use, none idle. " ++
        s!"In use: {inUse m.models}"))
    | some victim => .ok (some victim)

def loadAndRegister (m : ModelManager M) (modelId : String) (model : M) (now : Rat) :
    ModelManager M :=
  { m with models := m.models.set modelId ⟨modelId, model, now, now, 0⟩ }

/-- One more holder. -/
def hold (m : ModelManager M) (modelId : String) (entry : LoadedModel M) (now : Rat) :
    ModelManager M :=
  { m with
    models := m.models.set modelId
      { entry with refCount := entry.refCount + 1, lastUsedAt := now } }

/-- Load the model into the room there is, and hold it. -/
def loadInto (m : ModelManager M) (modelId : String) (now : Rat) (evicted : List String) :
    Option M → Outcome M M
  | none => ⟨m, .error .load, evicted⟩
  | some model =>
    ⟨(m.loadAndRegister modelId model now).hold modelId ⟨modelId, model, now, now, 0⟩ now,
      .ok model, evicted⟩

def acquire (m : ModelManager M) (modelId : String) (now : Rat) (unloads : Bool)
    (load : Option M) : Outcome M M :=
  match m.models.get? modelId with
  | some entry => ⟨m.hold modelId entry now, .ok entry.model, []⟩
  | none =>
    match m.maybeEvictForCapacity with
    | .error e => ⟨m, .error e, []⟩
    | .ok none => m.loadInto modelId now [] load
    | .ok (some victim) =>
      if unloads then (m.evict victim).loadInto modelId now [victim] load
      else ⟨m.evict victim, .error .unload, [victim]⟩

def release (m : ModelManager M) (modelId : String) : ModelManager M :=
  match m.models.get? modelId with
  | none => m
  | some entry =>
    { m with models := m.models.set modelId { entry with refCount := max 0 (entry.refCount - 1) } }

/-- The ids of the models that have been idle for longer than the time to live. -/
def expired (m : ModelManager M) (now : Rat) : List String :=
  (m.models.filter fun kv =>
    kv.2.refCount = 0 ∧ m.ttlSeconds < now - kv.2.lastUsedAt).map Prod.fst

/-- One eviction after the other, up to the first that raises. -/
def evictEach (unloads : String → Bool) (m : ModelManager M) : List String → Outcome M Unit
  | [] => ⟨m, .ok (), []⟩
  | modelId :: rest =>
    if unloads modelId then
      let outcome := evictEach unloads (m.evict modelId) rest
      { outcome with evicted := modelId :: outcome.evicted }
    else ⟨m.evict modelId, .error .unload, [modelId]⟩

def evictExpired (m : ModelManager M) (now : Rat) (unloads : String → Bool) : Outcome M Unit :=
  evictEach unloads m (m.expired now)

end ModelManager

/-- The calls at the manager, with what the clock and the subclass answer them. -/
inductive Op (M : Type)
  | acquire (modelId : String) (now : Rat) (unloads : Bool) (load : Option M)
  | release (modelId : String)
  | evictExpired (now : Rat) (unloads : String → Bool)

/-- The manager after a call, and what the call has unloaded. -/
def step (m : ModelManager M) : Op M → ModelManager M × List String
  | .acquire modelId now unloads load =>
    let outcome := m.acquire modelId now unloads load
    (outcome.manager, outcome.evicted)
  | .release modelId => (m.release modelId, [])
  | .evictExpired now unloads =>
    let outcome := m.evictExpired now unloads
    (outcome.manager, outcome.evicted)

/-- The manager and how many acquires of each model are outstanding. -/
structure Managed (M : Type) where
  manager : ModelManager M
  outstanding : String → Nat := fun _ => 0

/-- An acquire that returns is outstanding until its release. -/
def Managed.count (s : Managed M) : Op M → String → Nat
  | .acquire modelId now unloads load =>
    match (s.manager.acquire modelId now unloads load).answer with
    | .ok _ => Function.update s.outstanding modelId (s.outstanding modelId + 1)
    | .error _ => s.outstanding
  | .release modelId => Function.update s.outstanding modelId (s.outstanding modelId - 1)
  | .evictExpired _ _ => s.outstanding

def Managed.next (s : Managed M) (op : Op M) : Managed M where
  manager := (step s.manager op).1
  outstanding := s.count op

/-- A release matches an acquire that is outstanding. -/
def Managed.Permitted (s : Managed M) : Op M → Prop
  | .release modelId => 0 < s.outstanding modelId
  | _ => True

instance (s : Managed M) : (op : Op M) → Decidable (s.Permitted op)
  | .release modelId => inferInstanceAs (Decidable (0 < s.outstanding modelId))
  | .acquire .. => isTrue trivial
  | .evictExpired .. => isTrue trivial

end Manager

section Evictions

variable {M : Type} {m : ModelManager M} {modelId : String}

namespace ModelManager

/-- The references that the manager counts for a model. -/
def refs (m : ModelManager M) (modelId : String) : Int :=
  ((m.models.get? modelId).map LoadedModel.refCount).getD 0

/-- The manager without some models. -/
def evictAll (m : ModelManager M) (ids : List String) : ModelManager M :=
  { m with models := m.models.eraseAll ids }

theorem refs_of_get? {entry : LoadedModel M} (h : m.models.get? modelId = some entry) :
    m.refs modelId = entry.refCount := by
  simp [refs, h]

theorem refs_of_none (h : m.models.get? modelId = none) : m.refs modelId = 0 := by
  simp [refs, h]

theorem refs_set (m : ModelManager M) (modelId other : String) (entry : LoadedModel M) :
    refs { m with models := m.models.set modelId entry } other =
      if modelId = other then entry.refCount else m.refs other := by
  rw [refs, Dict.get?_set]
  split_ifs <;> rfl

@[simp] theorem evictAll_nil (m : ModelManager M) : m.evictAll [] = m := by
  simp [evictAll, Dict.eraseAll]

theorem evict_eq_evictAll (m : ModelManager M) (modelId : String) :
    m.evict modelId = m.evictAll [modelId] := by
  rw [evict, evictAll, Dict.erase_eq_eraseAll]

theorem evictAll_evictAll (m : ModelManager M) (ids ids' : List String) :
    (m.evictAll ids).evictAll ids' = m.evictAll (ids ++ ids') := by
  rw [evictAll, evictAll, evictAll, Dict.eraseAll_eraseAll]

theorem get?_evictAll (m : ModelManager M) (ids : List String) (modelId : String) :
    (m.evictAll ids).models.get? modelId =
      if modelId ∈ ids then none else m.models.get? modelId :=
  Dict.get?_eraseAll _ _ _

/-- Evicting idle models changes no count. -/
theorem refs_evictAll {ids : List String} (h : ∀ id ∈ ids, m.refs id = 0) (modelId : String) :
    (m.evictAll ids).refs modelId = m.refs modelId := by
  by_cases hmem : modelId ∈ ids
  · rw [refs_of_none (by rw [get?_evictAll, if_pos hmem]), h modelId hmem]
  · rw [refs, refs, get?_evictAll, if_neg hmem]

theorem refs_of_mem (hdistinct : m.models.Distinct) {kv : String × LoadedModel M}
    (hkv : kv ∈ m.models) : m.refs kv.1 = kv.2.refCount :=
  refs_of_get? (hdistinct.get?_of_mem hkv)

/-- The model that has to go is a loaded one that is idle. -/
theorem lru_idle {victim : String} (h : m.lru = some victim) :
    ∃ kv ∈ m.models, kv.1 = victim ∧ kv.2.refCount = 0 := by
  rw [lru, Option.map_eq_some_iff] at h
  obtain ⟨kv, hmin, rfl⟩ := h
  have hmem := List.argmin_mem (Option.mem_def.mpr hmin)
  obtain ⟨hkv, hidle⟩ := List.mem_filter.mp hmem
  exact ⟨kv, hkv, rfl, of_decide_eq_true hidle⟩

theorem expired_idle (hdistinct : m.models.Distinct) {now : Rat} {id : String}
    (h : id ∈ m.expired now) : m.refs id = 0 := by
  obtain ⟨kv, hmem, rfl⟩ := List.mem_map.mp h
  obtain ⟨hkv, hidle⟩ := List.mem_filter.mp hmem
  rw [refs_of_mem hdistinct hkv]
  exact (of_decide_eq_true hidle).1

/-- A row of evictions takes away some of its models and changes nothing else. -/
theorem evictEach_spec (unloads : String → Bool) (m : ModelManager M) (ids : List String) :
    (evictEach unloads m ids).manager = m.evictAll (evictEach unloads m ids).evicted ∧
      ∀ id ∈ (evictEach unloads m ids).evicted, id ∈ ids := by
  induction ids generalizing m with
  | nil => exact ⟨(evictAll_nil m).symm, by simp [evictEach]⟩
  | cons modelId rest ih =>
      rw [evictEach]
      split_ifs
      · obtain ⟨hmanager, hevicted⟩ := ih (m.evict modelId)
        refine ⟨?_, ?_⟩
        · rw [hmanager, evict_eq_evictAll, evictAll_evictAll]
          rfl
        · exact List.forall_mem_cons.mpr
            ⟨List.mem_cons_self, fun id hid => List.mem_cons_of_mem _ (hevicted id hid)⟩
      · exact ⟨evict_eq_evictAll m modelId, fun id hid => by
          rw [List.mem_singleton.mp hid]
          exact List.mem_cons_self⟩

end ModelManager

end Evictions

section Moves

variable {M : Type} {m : ModelManager M}

/-- What an acquire can do: hold a loaded model, raise after it has evicted idle models, or load
the model into a room it has made by evicting idle ones. -/
inductive AcquireMove (m : ModelManager M) (modelId : String) (now : Rat) : Outcome M M → Prop
  | held (entry : LoadedModel M) (hloaded : m.models.get? modelId = some entry) :
      AcquireMove m modelId now ⟨m.hold modelId entry now, .ok entry.model, []⟩
  | raised (e : Raised) (evicted : List String) (hidle : ∀ id ∈ evicted, m.refs id = 0) :
      AcquireMove m modelId now ⟨m.evictAll evicted, .error e, evicted⟩
  | loaded (model : M) (evicted : List String) (hnew : m.models.get? modelId = none)
      (hidle : ∀ id ∈ evicted, m.refs id = 0)
      (hroom : (m.evictAll evicted).models.length < m.maxLoaded) :
      AcquireMove m modelId now
        ⟨((m.evictAll evicted).loadAndRegister modelId model now).hold modelId
          ⟨modelId, model, now, now, 0⟩ now, .ok model, evicted⟩

theorem AcquireMove.loadInto {modelId : String} {now : Rat} {evicted : List String}
    (hnew : m.models.get? modelId = none) (hidle : ∀ id ∈ evicted, m.refs id = 0)
    (hroom : (m.evictAll evicted).models.length < m.maxLoaded) (load : Option M) :
    AcquireMove m modelId now ((m.evictAll evicted).loadInto modelId now evicted load) := by
  cases load with
  | none => exact .raised .load evicted hidle
  | some model => exact .loaded model evicted hnew hidle hroom

theorem acquireMove (hdistinct : m.models.Distinct) (hcapacity : m.models.length ≤ m.maxLoaded)
    (modelId : String) (now : Rat) (unloads : Bool) (load : Option M) :
    AcquireMove m modelId now (m.acquire modelId now unloads load) := by
  have hnothing : m.evictAll [] = m := ModelManager.evictAll_nil m
  have hnone : ∀ e : Raised, AcquireMove m modelId now ⟨m, .error e, []⟩ := fun e => by
    have hraised : AcquireMove m modelId now ⟨m.evictAll [], .error e, []⟩ :=
      .raised e [] (by simp)
    rwa [hnothing] at hraised
  rw [ModelManager.acquire]
  cases hloaded : m.models.get? modelId with
  | some entry => exact .held entry hloaded
  | none =>
      simp only [ModelManager.maybeEvictForCapacity]
      by_cases hroom : m.models.length < m.maxLoaded
      · rw [if_pos hroom]
        have hinto : AcquireMove m modelId now
            ((m.evictAll []).loadInto modelId now [] load) :=
          .loadInto hloaded (by simp) (by rwa [hnothing]) load
        rwa [hnothing] at hinto
      · rw [if_neg hroom]
        cases hlru : m.lru with
        | none => exact hnone _
        | some victim =>
            obtain ⟨kv, hkv, rfl, hzero⟩ := ModelManager.lru_idle hlru
            have hidle : ∀ id ∈ [kv.1], m.refs id = 0 := fun id hid => by
              rw [List.mem_singleton.mp hid, ModelManager.refs_of_mem hdistinct hkv, hzero]
            have hless : (m.evictAll [kv.1]).models.length < m.maxLoaded :=
              (Dict.length_eraseAll_lt hkv (List.mem_singleton_self _)).trans_le hcapacity
            simp only [ModelManager.evict_eq_evictAll]
            split_ifs
            · exact .loadInto hloaded hidle hless load
            · exact .raised .unload [kv.1] hidle

end Moves

section Runs

variable {M : Type}

/-- What holds between two calls. -/
structure Managed.Counted (s : Managed M) : Prop where
  distinct : s.manager.models.Distinct
  counts : ∀ id, s.manager.refs id = s.outstanding id
  capacity : s.manager.models.length ≤ s.manager.maxLoaded

variable {s : Managed M}

/-- Idle models are evicted from a manager that counts right. -/
theorem Managed.Counted.evictAll (h : s.Counted) {ids : List String}
    (hidle : ∀ id ∈ ids, s.manager.refs id = 0) :
    Managed.Counted ⟨s.manager.evictAll ids, s.outstanding⟩ where
  distinct := h.distinct.eraseAll ids
  counts id := by rw [ModelManager.refs_evictAll hidle, h.counts]
  capacity := (Dict.length_eraseAll_le _ _).trans h.capacity

/-- A loaded model gets one more holder, or loses one. -/
theorem Managed.Counted.set (h : s.Counted) {modelId : String} {entry entry' : LoadedModel M}
    (hloaded : s.manager.models.get? modelId = some entry) {n : Nat} (hn : entry'.refCount = n) :
    Managed.Counted ⟨{ s.manager with models := s.manager.models.set modelId entry' },
      Function.update s.outstanding modelId n⟩ where
  distinct := h.distinct.set _ _
  counts id := by
    rw [ModelManager.refs_set]
    change _ = ((Function.update s.outstanding modelId n id : Nat) : Int)
    split_ifs with heq
    · rw [← heq, Function.update_self, hn]
    · rw [Function.update_of_ne (Ne.symm heq), h.counts]
  capacity := by
    rw [Dict.length_set, hloaded]
    exact h.capacity

theorem Managed.Counted.next (h : s.Counted) {op : Op M} (hop : s.Permitted op) :
    (s.next op).Counted := by
  cases op with
  | acquire modelId now unloads load =>
      have hmove := acquireMove h.distinct h.capacity modelId now unloads load
      rw [Managed.next, step, Managed.count]
      generalize s.manager.acquire modelId now unloads load = outcome at hmove
      cases hmove with
      | held entry hloaded =>
          refine h.set hloaded ?_
          have hcount := h.counts modelId
          rw [ModelManager.refs_of_get? hloaded] at hcount
          simp [hcount]
      | raised e evicted hidle => exact h.evictAll hidle
      | loaded model evicted hnew hidle hroom =>
          have hroomy := h.evictAll hidle
          have hfresh : (s.manager.evictAll evicted).models.get? modelId = none := by
            rw [ModelManager.get?_evictAll, hnew, ite_self]
          have hnone : s.outstanding modelId = 0 := by
            have hcount := h.counts modelId
            rw [ModelManager.refs_of_none hnew] at hcount
            exact_mod_cast hcount.symm
          -- the new entry starts without a holder
          have hregistered : Managed.Counted
              ⟨(s.manager.evictAll evicted).loadAndRegister modelId model now, s.outstanding⟩ := by
            refine ⟨hroomy.distinct.set _ _, fun id => ?_, ?_⟩
            · rw [ModelManager.loadAndRegister, ModelManager.refs_set]
              split_ifs with heq
              · rw [← heq, hnone]
                rfl
              · exact hroomy.counts id
            · simp only [ModelManager.loadAndRegister, Dict.length_set, hfresh]
              exact hroom
          refine hregistered.set (Dict.get?_set_self _ _ _) ?_
          simp [hnone]
  | release modelId =>
      have hpos : 0 < s.outstanding modelId := hop
      have hcount := h.counts modelId
      cases hloaded : s.manager.models.get? modelId with
      | none =>
          rw [ModelManager.refs_of_none hloaded] at hcount
          omega
      | some entry =>
          rw [ModelManager.refs_of_get? hloaded] at hcount
          rw [Managed.next, step, Managed.count, ModelManager.release, hloaded]
          refine h.set hloaded ?_
          change max 0 (entry.refCount - 1) = ((s.outstanding modelId - 1 : Nat) : Int)
          omega
  | evictExpired now unloads =>
      obtain ⟨hmanager, hevicted⟩ :=
        ModelManager.evictEach_spec unloads s.manager (s.manager.expired now)
      rw [Managed.next, step, Managed.count, ModelManager.evictExpired, hmanager]
      exact h.evictAll fun id hid => ModelManager.expired_idle h.distinct (hevicted id hid)

/-- The property of every reachable state. -/
structure Managed.Safe (s : Managed M) : Prop where
  /-- The counts are the outstanding acquires, and a model that is held is loaded. -/
  counts : ∀ id entry, s.manager.models.get? id = some entry →
    entry.refCount = s.outstanding id ∧ 0 ≤ entry.refCount
  loaded : ∀ id, 0 < s.outstanding id → (s.manager.models.get? id).isSome
  capacity : s.manager.models.length ≤ s.manager.maxLoaded
  /-- No call unloads a model that is held: its object stays. -/
  held : ∀ op, s.Permitted op → ∀ id, 0 < s.outstanding id →
    id ∉ (step s.manager op).2 ∧
      ((step s.manager op).1.models.get? id).map LoadedModel.model =
        (s.manager.models.get? id).map LoadedModel.model
  /-- An acquire that raises changes nothing but what it has evicted. -/
  failed : ∀ modelId now unloads load e,
    (s.manager.acquire modelId now unloads load).answer = .error e →
      (s.manager.acquire modelId now unloads load).manager =
        s.manager.evictAll (s.manager.acquire modelId now unloads load).evicted

/-- The object of a loaded model stays when its entry is replaced. -/
theorem model_set {d : Dict (LoadedModel M)} {modelId id : String} {entry entry' : LoadedModel M}
    (h : d.get? modelId = some entry) (hmodel : entry'.model = entry.model) :
    ((d.set modelId entry').get? id).map LoadedModel.model =
      (d.get? id).map LoadedModel.model := by
  rw [Dict.get?_set]
  split_ifs with heq
  · rw [← heq, h, Option.map_some, Option.map_some, hmodel]
  · rfl

theorem Managed.Counted.held (h : s.Counted) {op : Op M} {id : String}
    (hid : 0 < s.outstanding id) :
    id ∉ (step s.manager op).2 ∧
      ((step s.manager op).1.models.get? id).map LoadedModel.model =
        (s.manager.models.get? id).map LoadedModel.model := by
  have hcount := h.counts id
  -- an idle model is not this one
  have hnot : ∀ {ids : List String}, (∀ v ∈ ids, s.manager.refs v = 0) → id ∉ ids := by
    intro ids hidle hmem
    have := hidle id hmem
    omega
  have hstays : ∀ {ids : List String}, (∀ v ∈ ids, s.manager.refs v = 0) →
      (s.manager.evictAll ids).models.get? id = s.manager.models.get? id := by
    intro ids hidle
    rw [ModelManager.get?_evictAll, if_neg (hnot hidle)]
  cases op with
  | acquire modelId now unloads load =>
      have hmove := acquireMove h.distinct h.capacity modelId now unloads load
      rw [step]
      generalize s.manager.acquire modelId now unloads load = outcome at hmove
      cases hmove with
      | held entry hloaded => exact ⟨List.not_mem_nil, model_set hloaded rfl⟩
      | raised e evicted hidle => exact ⟨hnot hidle, congrArg _ (hstays hidle)⟩
      | loaded model evicted hnew hidle hroom =>
          have hne : modelId ≠ id := by
            rintro rfl
            rw [ModelManager.refs_of_none hnew] at hcount
            omega
          refine ⟨hnot hidle, congrArg _ ?_⟩
          simp only [ModelManager.hold, ModelManager.loadAndRegister]
          rw [Dict.get?_set_ne _ _ hne, Dict.get?_set_ne _ _ hne, hstays hidle]
  | release modelId =>
      refine ⟨List.not_mem_nil, ?_⟩
      rw [step, ModelManager.release]
      cases hloaded : s.manager.models.get? modelId with
      | none => rfl
      | some entry => exact model_set hloaded rfl
  | evictExpired now unloads =>
      obtain ⟨hmanager, hevicted⟩ :=
        ModelManager.evictEach_spec unloads s.manager (s.manager.expired now)
      have hidle : ∀ v ∈ (s.manager.evictExpired now unloads).evicted, s.manager.refs v = 0 :=
        fun v hv => ModelManager.expired_idle h.distinct (hevicted v hv)
      refine ⟨hnot hidle, congrArg _ ?_⟩
      rw [step, ModelManager.evictExpired, hmanager]
      exact hstays hidle

theorem Managed.Counted.safe (h : s.Counted) : s.Safe where
  counts id entry hloaded := by
    have hcount := h.counts id
    rw [ModelManager.refs_of_get? hloaded] at hcount
    omega
  loaded id hid := by
    by_contra hnone
    have hcount := h.counts id
    rw [ModelManager.refs_of_none (Option.not_isSome_iff_eq_none.mp hnone)] at hcount
    omega
  capacity := h.capacity
  held _ _ _ hid := h.held hid
  failed modelId now unloads load e hraised := by
    have hmove := acquireMove h.distinct h.capacity modelId now unloads load
    generalize s.manager.acquire modelId now unloads load = outcome at hmove hraised ⊢
    cases hmove with
    | held entry hloaded => cases hraised
    | raised e evicted hidle => rfl
    | loaded model evicted hnew hidle hroom => cases hraised

/-- A manager without models. -/
def started (ttlSeconds : Rat) (maxLoaded : Nat) : Managed M where
  manager := { ttlSeconds, maxLoaded }

/-- In every interleaving of the calls whose releases match acquires, the counts are right, a
held model stays loaded, the capacity is kept and a failed acquire undoes nothing else. -/
theorem safe_of_run {ttlSeconds : Rat} {maxLoaded : Nat}
    (h : ActionRun (Acts Managed.next) Managed.Permitted (started ttlSeconds maxLoaded) s) :
    s.Safe := by
  refine Managed.Counted.safe (h.invariant ?_ ?_)
  · exact ⟨List.nodup_nil, fun _ => rfl, Nat.zero_le _⟩
  · rintro s op _ hcounted rfl hop
    exact hcounted.next hop

/-- Two requests hold one model, a second model takes the place of an idle third one. -/
theorem three_models_in_two_places :
    Managed.Safe (M := Nat)
      ([.acquire "a" 0 true (some 1), .acquire "b" 1 true (some 2), .release "b",
        .acquire "a" 2 true none, .acquire "c" 3 true (some 3),
        .evictExpired 9000 fun _ => true].foldl Managed.next (started 3600 2)) :=
  safe_of_run (ActionRun.of_permitted (by decide +kernel))

end Runs

end Dalston.Engines.Manager
