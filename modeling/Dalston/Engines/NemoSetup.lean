import Dalston.Engines.NemoObjects

/-!
# The configuration of a shared model object

The set-up of a model object is remembered under the model's id, so an object that is
loaded again under the id gets none; a vocabulary is configured on an object that other
holders use. Where no model is set up twice, an object is only configured by its only
holder, nobody acquires it before that is over, and a reset leaves what the model is
published with, every inference runs under the configuration of its model and its own
vocabulary.
-/

namespace Dalston.Engines.Nemo

open Foundation

section Claim

variable (config : Config)

/-- Every batch inference runs on an object that has been set up, every inference under the
configuration of its model and its vocabulary, and a task with vocabulary leaves the
configuration it found, with the set-up. -/
structure Configured (pool : NemoPool) : Prop where
  attention : ∀ inference ∈ pool.store.inferring, inference.batch = true →
    (pool.store.objects inference.object).attention = true
  confidence : ∀ inference ∈ pool.store.inferring, inference.batch = true →
    config.confidence = true → (pool.store.objects inference.object).confidence = true
  own : ∀ inference ∈ pool.store.inferring,
    (pool.store.objects inference.object).decoding =
      config.inForce inference.modelId inference.vocabulary
  restored : ∀ ret ∈ pool.returned, ret.call.vocabulary ≠ [] → ∀ before after transcribed,
    ret.result = .ended before after transcribed → after = config.setUp before

/-- A loaded model is acquired while no set-up and no vocabulary is on its way on its object,
and a model is loaded before it is ever set up. -/
def AcquiresSettled (s : Core) (m : String) (loads : Bool) : Prop :=
  (∀ entry ∈ s.models.get? m,
      (m ∈ s.confidenceApplied → (s.objects entry.object).confidence = true) ∧
        (s.objects entry.object).decoding.keyPhrases = (config.fresh m).keyPhrases) ∧
    (s.models.get? m = none → loads = true →
      m ∉ s.localAttentionApplied ∧ m ∉ s.confidenceApplied)

/-- An object is configured by its only holder, and an utterance only uses an object that has
been set up. -/
def Undisturbed (s : Core) : Effect → Prop
  | .acquire m _ loads => AcquiresSettled config s m loads.isSome
  | .markConfidence m => s.refCount m = 1
  | .configure obj _ _ => s.refCount (s.objects obj).modelId = 1
  | .begin inference =>
      inference.batch = false → config.confidence = true →
        (s.objects inference.object).confidence = true ∨
          (config.fresh inference.modelId).preserveWordConfidence = true
  | _ => True

/-- Calls start well and take their steps undisturbed. -/
def Alone (pool : NemoPool) : Turn Call Effect → Prop
  | .start c => StartsWell config c
  | .move i => ∀ e ∈ pool.next? i, Undisturbed config pool.store e
  | .fail _ => False
  | .outside e => AnyOrder config pool (.outside e)

instance (s : Core) : ∀ e, Decidable (Undisturbed config s e)
  | .acquire _ _ _ => inferInstanceAs (Decidable (_ ∧ _))
  | .markConfidence _ | .configure _ _ _ => inferInstanceAs (Decidable (_ = _))
  | .begin _ => inferInstanceAs (Decidable (_ → _ → _ ∨ _))
  | .release _ | .read | .enableAttention _ | .markAttention _ | .applyConfidence _ _
  | .probe _ _ | .finish _ | .reset _ _ | .evictExpired _ | .tick => isTrue trivial

instance (pool : NemoPool) : ∀ turn, Decidable (AnyOrder config pool turn)
  | .start _ | .move _ | .outside .tick => isTrue trivial
  | .outside (.evictExpired _) => inferInstanceAs (Decidable (_ = _))
  | .fail _ => isFalse id
  | .outside (.acquire _ _ _) | .outside (.release _) | .outside .read
  | .outside (.enableAttention _) | .outside (.markAttention _) | .outside (.markConfidence _)
  | .outside (.applyConfidence _ _) | .outside (.probe _ _) | .outside (.configure _ _ _)
  | .outside (.begin _) | .outside (.finish _) | .outside (.reset _ _) => isFalse id

instance (pool : NemoPool) : ∀ turn, Decidable (Alone config pool turn)
  | .start c => inferInstanceAs (Decidable (StartsWell config c))
  | .move i =>
      inferInstanceAs (Decidable (∀ e ∈ pool.next? i, Undisturbed config pool.store e))
  | .fail _ => isFalse id
  | .outside e => inferInstanceAs (Decidable (AnyOrder config pool (.outside e)))

end Claim

section Invariant

variable {config : Config}

def holds (config : Config) (m : String) (g : Holder) : Prop :=
  g.state.held?.isSome ∧ g.call.modelId config = m

instance (m : String) (g : Holder) : Decidable (holds config m g) :=
  inferInstanceAs (Decidable (_ ∧ _))

/-- The inference that a holder is making. -/
def inference? (config : Config) (g : Holder) : Option Inference :=
  g.state.held?.bind fun held =>
    if held.2.inferring then
      some ⟨held.1, g.call.modelId config, g.call.vocabulary, g.call.batch⟩
    else none

/-- A loaded model counts its holders, and they account for its configuration. -/
structure ModelFine (config : Config) (s : Core) (m : String) (entry : LoadedModel)
    (holders : Multiset Holder) : Prop where
  created : entry.object < s.created
  model : (s.objects entry.object).modelId = m
  attention : m ∈ s.localAttentionApplied → (s.objects entry.object).attention = true
  count : entry.refCount = holders.card
  cfg : (s.objects entry.object).cfg = (s.objects entry.object).decoding
  settles : Settles config m (s.objects entry.object) (m ∈ s.confidenceApplied) holders

/-- What a holder has done shows on its object. -/
structure Facts (config : Config) (s : Core) (c : Call) (obj : Nat) (before : DecodingConfig)
    (h : Held) : Prop where
  entry : ∃ entry, s.models.get? (c.modelId config) = some entry ∧ entry.object = obj
  attended : h.attended = true → (s.objects obj).attention = true
  confided : h.confided = true → (s.objects obj).confidence = true
  before : config.setUp before = config.base (c.modelId config)
  inferring : h.inferring = true → h.marked = false ∧
    h.boosted = decide (config.boosts (c.modelId config) c.vocabulary) ∧
    (c.batch = true → h.attended = true ∧ (config.confidence = true → h.confided = true)) ∧
    (c.batch = false → config.confidence = true → (s.objects obj).confidence = true ∨
      (config.fresh (c.modelId config)).preserveWordConfidence = true)

def PhaseFine (config : Config) (s : Core) (c : Call) : Phase → Prop
  | .outside | .failed => True
  | .held obj before h => Facts config s c obj before h
  | .ended before after => c.batch = true → after = config.setUp before
  | .astray => False

structure CoreFine (config : Config) (s : Core) (gs : Multiset Holder) : Prop where
  distinct : s.models.Distinct
  models : ∀ m entry, s.models.get? m = some entry →
    ModelFine config s m entry (gs.filter (holds config m))
  phases : ∀ g ∈ gs, StartsWell config g.call ∧ PhaseFine config s g.call g.state
  support : ∀ m b, s.boostingSupport.get? m = some b →
    b = (config.fresh m).boostingTree.isSome
  inferring : (s.inferring : Multiset Inference) = gs.filterMap (inference? config)

theorem resets_of_starts {c : Call} (h : StartsWell config c)
    (hboosts : config.boosts (c.modelId config) c.vocabulary) :
    (config.base (c.modelId config)).Resets := by
  cases c with
  | task r => exact h.2.2 hboosts
  | utterance m loads transcribes | preload m loads => exact absurd rfl hboosts.1

theorem ModelFine.frame {s s' : Core} {m : String} {entry : LoadedModel}
    {holders : Multiset Holder} (h : ModelFine config s m entry holders)
    (hcreated : s.created ≤ s'.created)
    (hobject : s'.objects entry.object = s.objects entry.object)
    (hattention : m ∈ s'.localAttentionApplied ↔ m ∈ s.localAttentionApplied)
    (hconfidence : m ∈ s'.confidenceApplied ↔ m ∈ s.confidenceApplied) :
    ModelFine config s' m entry holders where
  created := h.created.trans_le hcreated
  model := by rw [hobject, h.model]
  attention := by rw [hobject, hattention]; exact h.attention
  count := h.count
  cfg := by rw [hobject, h.cfg]
  settles := by rw [hobject, hconfidence]; exact h.settles

theorem Facts.frame {s s' : Core} {c : Call} {obj : Nat} {before : DecodingConfig} {h : Held}
    (hfacts : Facts config s c obj before h)
    (hentry : ∀ entry, s.models.get? (c.modelId config) = some entry →
      ∃ entry', s'.models.get? (c.modelId config) = some entry' ∧ entry'.object = entry.object)
    (hattention : (s.objects obj).attention = true → (s'.objects obj).attention = true)
    (hconfidence : (s.objects obj).confidence = true → (s'.objects obj).confidence = true) :
    Facts config s' c obj before h where
  entry := by
    obtain ⟨entry, hget, rfl⟩ := hfacts.entry
    exact hentry entry hget
  attended ha := hattention (hfacts.attended ha)
  confided hc := hconfidence (hfacts.confided hc)
  before := hfacts.before
  inferring hi := by
    obtain ⟨hmarked, hboosted, hbatch, hother⟩ := hfacts.inferring hi
    exact ⟨hmarked, hboosted, hbatch, fun hb hon => (hother hb hon).imp_left hconfidence⟩

/-- What a holder does to the shared state: it changes its own object and marks its own id. -/
structure HolderStep (config : Config) (c : Call) (obj : Nat) (s s' : Core) : Prop where
  models : s'.models = s.models
  created : s'.created = s.created
  objects : ∀ k, k ≠ obj → s'.objects k = s.objects k
  attention : ∀ m, m ≠ c.modelId config →
    (m ∈ s'.localAttentionApplied ↔ m ∈ s.localAttentionApplied)
  confidence : ∀ m, m ≠ c.modelId config → (m ∈ s'.confidenceApplied ↔ m ∈ s.confidenceApplied)
  attended : (s.objects obj).attention = true → (s'.objects obj).attention = true
  confided : (s.objects obj).confidence = true → (s'.objects obj).confidence = true
  support : (∀ m b, s.boostingSupport.get? m = some b →
      b = (config.fresh m).boostingTree.isSome) →
    ∀ m b, s'.boostingSupport.get? m = some b → b = (config.fresh m).boostingTree.isSome

namespace HolderStep

variable {c : Call} {obj : Nat}

theorem refl (s : Core) : HolderStep config c obj s s :=
  ⟨rfl, rfl, fun _ _ => rfl, fun _ _ => Iff.rfl, fun _ _ => Iff.rfl, id, id, id⟩

theorem change {s : Core} {f : NemoModel → NemoModel}
    (hattended : (s.objects obj).attention = true → (f (s.objects obj)).attention = true)
    (hconfided : (s.objects obj).confidence = true → (f (s.objects obj)).confidence = true) :
    HolderStep config c obj s (s.change obj f) where
  models := rfl
  created := rfl
  objects _ hk := Function.update_of_ne hk _ _
  attention _ _ := Iff.rfl
  confidence _ _ := Iff.rfl
  attended := by simpa [Core.change] using hattended
  confided := by simpa [Core.change] using hconfided
  support := id

end HolderStep

theorem holds_of_held {g : Holder} {obj : Nat} {before : DecodingConfig} {h : Held}
    (hg : g.state = .held obj before h) : holds config (g.call.modelId config) g :=
  ⟨by rw [hg]; rfl, rfl⟩

/-- The step rule for holders: a step that fits the holder's object and the holder keeps the
invariant. -/
theorem CoreFine.step {s s' : Core} {g : Holder} {gs : Multiset Holder} {obj : Nat}
    {before : DecodingConfig} {h h' : Held} (hfine : CoreFine config s (g ::ₘ gs))
    (hg : g.state = .held obj before h) (hstep : HolderStep config g.call obj s s')
    (hmodel : ∀ entry, entry.object = obj →
      ModelFine config s (g.call.modelId config) entry
        (g ::ₘ gs.filter (holds config (g.call.modelId config))) →
      ModelFine config s' (g.call.modelId config) entry
        ({ g with state := .held obj before h' } ::ₘ
          gs.filter (holds config (g.call.modelId config))))
    (hfacts : Facts config s' g.call obj before h')
    (hinferring : (s'.inferring : Multiset Inference) =
      ({ g with state := .held obj before h' } ::ₘ gs).filterMap (inference? config)) :
    CoreFine config s' ({ g with state := .held obj before h' } ::ₘ gs) := by
  obtain ⟨⟨hstarts, hphase⟩, hothers⟩ := Multiset.forall_mem_cons.mp hfine.phases
  rw [hg] at hphase
  obtain ⟨own, hown, hobj⟩ := hphase.entry
  have hmine := hfine.models _ own hown
  rw [Multiset.filter_cons_of_pos _ (holds_of_held hg)] at hmine
  refine ⟨hstep.models ▸ hfine.distinct, ?_, ?_, hstep.support hfine.support, hinferring⟩
  · intro m entry hget
    rw [hstep.models] at hget
    by_cases hm : m = g.call.modelId config
    · subst hm
      obtain rfl := Option.some.inj (hget.symm.trans hown)
      rw [Multiset.filter_cons_of_pos _ ⟨rfl, rfl⟩]
      exact hmodel entry hobj hmine
    · have hold := hfine.models m entry hget
      have hne : entry.object ≠ obj := by
        rintro rfl
        exact hm (hold.model.symm.trans (hobj ▸ hmine.model))
      rw [Multiset.filter_cons_of_neg _ fun hh => hm hh.2.symm] at hold ⊢
      exact hold.frame hstep.created.ge (hstep.objects _ hne) (hstep.attention m hm)
        (hstep.confidence m hm)
  · refine Multiset.forall_mem_cons.mpr ⟨⟨hstarts, hfacts⟩, ?_⟩
    intro g' hg'
    obtain ⟨hstarts', hphase'⟩ := hothers g' hg'
    refine ⟨hstarts', ?_⟩
    cases hstate : g'.state with
    | held k before' h₀ =>
        rw [hstate] at hphase'
        refine hphase'.frame (fun entry hget => ⟨entry, hstep.models ▸ hget, rfl⟩) ?_ ?_
        · intro ha
          by_cases hk : k = obj
          · subst hk
            exact hstep.attended ha
          · rwa [hstep.objects k hk]
        · intro ha
          by_cases hk : k = obj
          · subst hk
            exact hstep.confided ha
          · rwa [hstep.objects k hk]
    | outside | ended _ _ | failed | astray =>
        rw [hstate] at hphase'
        exact hphase'

theorem inferring_cons {g : Holder} {gs : Multiset Holder} {inference : Inference}
    (h : inference? config g = some inference) :
    (g ::ₘ gs).filterMap (inference? config) = inference ::ₘ gs.filterMap (inference? config) :=
  Multiset.filterMap_cons_some _ _ _ h

theorem inferring_skip {g : Holder} {gs : Multiset Holder} (h : inference? config g = none) :
    (g ::ₘ gs).filterMap (inference? config) = gs.filterMap (inference? config) :=
  Multiset.filterMap_cons_none _ _ h

/-- Inferences go on while their threads do other steps. -/
theorem inferring_same {g g' : Holder} {gs : Multiset Holder}
    (h : inference? config g' = inference? config g) :
    (g' ::ₘ gs).filterMap (inference? config) = (g ::ₘ gs).filterMap (inference? config) := by
  cases hg : inference? config g with
  | none => rw [inferring_skip hg, inferring_skip (h.trans hg)]
  | some inference => rw [inferring_cons hg, inferring_cons (h.trans hg)]

section Moves

variable {s : Core} {g : Holder} {gs : Multiset Holder} {obj : Nat} {before : DecodingConfig}
  {h h' : Held}

theorem inference?_held (hg : g.state = .held obj before h) :
    inference? config g =
      if h.inferring then some ⟨obj, g.call.modelId config, g.call.vocabulary, g.call.batch⟩
      else none := by
  rw [inference?, hg]
  rfl

theorem CoreFine.facts (hfine : CoreFine config s (g ::ₘ gs)) (hg : g.state = .held obj before h) :
    Facts config s g.call obj before h := by
  have hphase := (hfine.phases g (Multiset.mem_cons_self g gs)).2
  rwa [hg] at hphase

/-- The object of a holder is that of its model. -/
theorem CoreFine.own (hfine : CoreFine config s (g ::ₘ gs)) (hg : g.state = .held obj before h) :
    ∃ entry, s.models.get? (g.call.modelId config) = some entry ∧ entry.object = obj ∧
      ModelFine config s (g.call.modelId config) entry
        (g ::ₘ gs.filter (holds config (g.call.modelId config))) := by
  obtain ⟨entry, hget, hobj⟩ := (hfine.facts hg).entry
  have hmodel := hfine.models _ entry hget
  rw [Multiset.filter_cons_of_pos _ (holds_of_held hg)] at hmodel
  exact ⟨entry, hget, hobj, hmodel⟩

/-- A step that leaves the objects and the ids alone, and the configuration to whom it was. -/
theorem CoreFine.note {s' : Core} (hfine : CoreFine config s (g ::ₘ gs))
    (hg : g.state = .held obj before h) (hstep : HolderStep config g.call obj s s')
    (hobject : s'.objects obj = s.objects obj)
    (hattention : s'.localAttentionApplied = s.localAttentionApplied)
    (hconfidence : s'.confidenceApplied = s.confidenceApplied)
    (hmarked : h'.marked = h.marked) (hboosted : h'.boosted = h.boosted)
    (hfacts : Facts config s' g.call obj before h')
    (hinferring : (s'.inferring : Multiset Inference) =
      ({ g with state := .held obj before h' } ::ₘ gs).filterMap (inference? config)) :
    CoreFine config s' ({ g with state := .held obj before h' } ::ₘ gs) := by
  refine hfine.step hg hstep ?_ hfacts hinferring
  rintro entry rfl hmodel
  have hframe := hmodel.frame hstep.created.ge hobject (by rw [hattention]) (by rw [hconfidence])
  refine { hframe with settles := ?_, count := ?_ }
  · rw [hframe.count, Multiset.card_cons, Multiset.card_cons]
  · refine hframe.settles.keep rfl rfl rfl ?_ ?_
    · rw [hg]
      exact hmarked
    · rw [hg]
      exact hboosted

/-- A step of a holder on its object. -/
theorem CoreFine.alter {f : NemoModel → NemoModel} (hfine : CoreFine config s (g ::ₘ gs))
    (hg : g.state = .held obj before h)
    (hattended : (s.objects obj).attention = true → (f (s.objects obj)).attention = true)
    (hconfided : (s.objects obj).confidence = true → (f (s.objects obj)).confidence = true)
    (hmodelId : (f (s.objects obj)).modelId = (s.objects obj).modelId)
    (hcfg : (s.objects obj).cfg = (s.objects obj).decoding →
      (f (s.objects obj)).cfg = (f (s.objects obj)).decoding)
    (hsettles : (s.objects obj).cfg = (s.objects obj).decoding →
      ∀ rest, Settles config (g.call.modelId config) (s.objects obj)
          (g.call.modelId config ∈ s.confidenceApplied) (g ::ₘ rest) →
        rest = gs.filter (holds config (g.call.modelId config)) →
        Settles config (g.call.modelId config) (f (s.objects obj))
          (g.call.modelId config ∈ s.confidenceApplied)
          ({ g with state := .held obj before h' } ::ₘ rest))
    (hfacts : Facts config (s.change obj f) g.call obj before h')
    (hinferring : h'.inferring = h.inferring) :
    CoreFine config (s.change obj f) ({ g with state := .held obj before h' } ::ₘ gs) := by
  refine hfine.step hg (HolderStep.change hattended hconfided) ?_ hfacts ?_
  · rintro entry rfl hmodel
    have hobject : (s.change entry.object f).objects entry.object =
        f (s.objects entry.object) := Function.update_self _ _ _
    refine ⟨hmodel.created, ?_, ?_, ?_, ?_, ?_⟩
    · rw [hobject, hmodelId, hmodel.model]
    · rw [hobject]
      exact fun hknown => hattended (hmodel.attention hknown)
    · rw [hmodel.count, Multiset.card_cons, Multiset.card_cons]
    · rw [hobject]
      exact hcfg hmodel.cfg
    · rw [hobject]
      exact hsettles hmodel.cfg _ hmodel.settles rfl
  · rw [inferring_same (g := g) (by rw [inference?_held rfl, inference?_held hg, hinferring])]
    exact hfine.inferring

/-- A model with one holder is held by nobody else. -/
theorem CoreFine.alone (hfine : CoreFine config s (g ::ₘ gs)) (hg : g.state = .held obj before h)
    (hone : s.refCount (g.call.modelId config) = 1) :
    gs.filter (holds config (g.call.modelId config)) = 0 := by
  obtain ⟨entry, hget, _, hmodel⟩ := hfine.own hg
  have hcount := hmodel.count
  rw [Core.refCount, hget] at hone
  rw [Multiset.card_cons] at hcount
  have hcard : (gs.filter (holds config (g.call.modelId config))).card = 0 := by
    have hone' : entry.refCount = 1 := hone
    omega
  exact Multiset.card_eq_zero.mp hcard

theorem CoreFine.modelId (hfine : CoreFine config s (g ::ₘ gs))
    (hg : g.state = .held obj before h) :
    (s.objects obj).modelId = g.call.modelId config := by
  obtain ⟨entry, _, rfl, hmodel⟩ := hfine.own hg
  exact hmodel.model

theorem CoreFine.lookOn (hfine : CoreFine config s (g ::ₘ gs)) (hg : g.state = .held obj before h) :
    CoreFine config s ({ g with state := .held obj before h } ::ₘ gs) := by
  rwa [← hg]

theorem CoreFine.learnAttention (hfine : CoreFine config s (g ::ₘ gs))
    (hg : g.state = .held obj before h)
    (hknown : g.call.modelId config ∈ s.localAttentionApplied) :
    CoreFine config s ({ g with state := .held obj before { h with attended := true } } ::ₘ gs) := by
  obtain ⟨entry, _, hobj, hmodel⟩ := hfine.own hg
  have hfacts := hfine.facts hg
  refine hfine.note hg (.refl s) rfl rfl rfl rfl rfl ?_ ?_
  · refine ⟨hfacts.entry, fun _ => hobj ▸ hmodel.attention hknown, hfacts.confided,
      hfacts.before, ?_⟩
    intro hinferring
    obtain ⟨hmarked, hboosted, hbatch, hother⟩ := hfacts.inferring hinferring
    exact ⟨hmarked, hboosted, fun hb => ⟨rfl, (hbatch hb).2⟩, hother⟩
  · rw [inferring_same (g := g) (by rw [inference?_held rfl, inference?_held hg])]
    exact hfine.inferring

theorem CoreFine.enable (hfine : CoreFine config s (g ::ₘ gs))
    (hg : g.state = .held obj before h) :
    CoreFine config (apply (Effect.enableAttention obj) s)
      ({ g with state := .held obj before { h with attended := true } } ::ₘ gs) := by
  have hfacts := hfine.facts hg
  have hobject : (s.change obj fun o => { o with attention := true }).objects obj =
      { s.objects obj with attention := true } := Function.update_self _ _ _
  refine hfine.alter hg (fun _ => rfl) id rfl id ?_ ?_ rfl
  · rintro _ rest hsettles _
    refine hsettles.keep rfl rfl rfl ?_ ?_
    · rw [hg]
      rfl
    · rw [hg]
      rfl
  · refine ⟨hfacts.entry, fun _ => by rw [hobject], ?_, hfacts.before, ?_⟩
    · rw [hobject]
      exact hfacts.confided
    · intro hinferring
      obtain ⟨hmarked, hboosted, hbatch, hother⟩ := hfacts.inferring hinferring
      refine ⟨hmarked, hboosted, fun hb => ⟨rfl, (hbatch hb).2⟩, ?_⟩
      rw [hobject]
      exact hother

theorem CoreFine.markAttention (hfine : CoreFine config s (g ::ₘ gs))
    (hg : g.state = .held obj before h) (hattended : h.attended = true) :
    CoreFine config (apply (Effect.markAttention (g.call.modelId config)) s)
      ({ g with state := .held obj before h } ::ₘ gs) := by
  have hfacts := hfine.facts hg
  have hstep : HolderStep config g.call obj s
      (apply (Effect.markAttention (g.call.modelId config)) s) := by
    refine ⟨rfl, rfl, fun _ _ => rfl, ?_, fun _ _ => Iff.rfl, id, id, id⟩
    intro m hm
    exact List.mem_cons.trans (or_iff_right hm)
  refine hfine.step hg hstep ?_ ?_ ?_
  · rintro entry rfl hmodel
    refine ⟨hmodel.created, hmodel.model, fun _ => hfacts.attended hattended, ?_, hmodel.cfg, ?_⟩
    · rw [hmodel.count, Multiset.card_cons, Multiset.card_cons]
    · refine hmodel.settles.keep rfl rfl rfl ?_ ?_
      · rw [hg]
      · rw [hg]
  · exact hfacts.frame (fun entry hget => ⟨entry, hget, rfl⟩) id id
  · rw [inferring_same (g := g) (by rw [inference?_held rfl, inference?_held hg])]
    exact hfine.inferring

theorem CoreFine.learnConfidence (hfine : CoreFine config s (g ::ₘ gs))
    (hg : g.state = .held obj before h) (hmarked : h.marked = false)
    (hknown : g.call.modelId config ∈ s.confidenceApplied) :
    CoreFine config s ({ g with state := .held obj before { h with confided := true } } ::ₘ gs) := by
  obtain ⟨entry, _, hobj, hmodel⟩ := hfine.own hg
  have hfacts := hfine.facts hg
  have hconfidence : (s.objects obj).confidence = true := by
    rw [← hobj]
    exact hmodel.settles.confidence (by rw [hg]; exact hmarked) hknown
  refine hfine.note hg (.refl s) rfl rfl rfl rfl rfl ?_ ?_
  · refine ⟨hfacts.entry, hfacts.attended, fun _ => hconfidence, hfacts.before, ?_⟩
    intro hinferring
    obtain ⟨hm, hb, hbatch, hother⟩ := hfacts.inferring hinferring
    exact ⟨hm, hb, fun hbat => ⟨(hbatch hbat).1, fun _ => rfl⟩, hother⟩
  · rw [inferring_same (g := g) (by rw [inference?_held rfl, inference?_held hg])]
    exact hfine.inferring

theorem CoreFine.markConfidence (hfine : CoreFine config s (g ::ₘ gs))
    (hg : g.state = .held obj before h) (hboosted : h.boosted = false)
    (hinferring : h.inferring = false) (hone : s.refCount (g.call.modelId config) = 1) :
    CoreFine config (apply (Effect.markConfidence (g.call.modelId config)) s)
      ({ g with state := .held obj before { h with marked := true } } ::ₘ gs) := by
  have hfacts := hfine.facts hg
  have hnone := hfine.alone hg hone
  have hstep : HolderStep config g.call obj s
      (apply (Effect.markConfidence (g.call.modelId config)) s) := by
    refine ⟨rfl, rfl, fun _ _ => rfl, fun _ _ => Iff.rfl, ?_, id, id, id⟩
    intro m hm
    exact List.mem_cons.trans (or_iff_right hm)
  refine hfine.step hg hstep ?_ ?_ ?_
  · rintro entry rfl hmodel
    rw [hnone] at hmodel ⊢
    refine ⟨hmodel.created, hmodel.model, hmodel.attention, ?_, hmodel.cfg, ?_⟩
    · rw [hmodel.count, Multiset.card_cons, Multiset.card_cons]
    · exact hmodel.settles.mark (by rw [hg]; exact hboosted) rfl hboosted List.mem_cons_self
  · refine ⟨hfacts.entry, hfacts.attended, hfacts.confided, hfacts.before, ?_⟩
    intro h'
    exact absurd (hinferring.symm.trans h') Bool.false_ne_true
  · rw [inferring_same (g := g) (by rw [inference?_held rfl, inference?_held hg])]
    exact hfine.inferring

theorem CoreFine.applyConfidence (hfine : CoreFine config s (g ::ₘ gs))
    (hg : g.state = .held obj before h) (hon : config.confidence = true)
    (hmarked : h.marked = true) :
    CoreFine config (apply (Effect.applyConfidence obj true) s)
      ({ g with state := .held obj before { h with marked := false, confided := true } } ::ₘ gs) := by
  have hfacts := hfine.facts hg
  have hobject : (s.change obj (·.confident true)).objects obj = (s.objects obj).confident true :=
    Function.update_self _ _ _
  have hinferring : h.inferring = false := by
    cases hi : h.inferring with
    | false => rfl
    | true => exact absurd ((hfacts.inferring hi).1.symm.trans hmarked) Bool.false_ne_true
  refine hfine.alter hg id (fun _ => rfl) rfl (fun _ => rfl) ?_ ?_ rfl
  · intro hcfg rest hsettles _
    have hboth := hsettles.not_both
    rw [hg] at hboth
    have hboosted : h.boosted = false := Bool.eq_false_iff.mpr fun hb => hboth ⟨hmarked, hb⟩
    exact hsettles.confide hon hcfg (by rw [hg]; exact hmarked) rfl hboosted
  · refine ⟨hfacts.entry, ?_, fun _ => by rw [hobject]; rfl, hfacts.before, ?_⟩
    · rw [hobject]
      exact hfacts.attended
    · intro h'
      exact absurd (hinferring.symm.trans h') Bool.false_ne_true

theorem CoreFine.probe (hfine : CoreFine config s (g ::ₘ gs))
    (hg : g.state = .held obj before h)
    (hshown : s.supports (g.call.modelId config) obj =
      (config.fresh (g.call.modelId config)).boostingTree.isSome) :
    CoreFine config (apply (Effect.probe (g.call.modelId config) obj) s)
      ({ g with state := .held obj before h } ::ₘ gs) := by
  have hfacts := hfine.facts hg
  have hstep : HolderStep config g.call obj s
      (apply (Effect.probe (g.call.modelId config) obj) s) := by
    refine ⟨rfl, rfl, fun _ _ => rfl, fun _ _ => Iff.rfl, fun _ _ => Iff.rfl, id, id, ?_⟩
    intro hsupport m b hget
    have hget' : (s.boostingSupport.set (g.call.modelId config)
        (s.supports (g.call.modelId config) obj)).get? m = some b := hget
    rw [Dict.get?_set] at hget'
    split at hget'
    next heq =>
      subst heq
      rw [← Option.some.inj hget', hshown]
    next => exact hsupport m b hget'
  refine hfine.note hg hstep rfl rfl rfl rfl rfl ?_ ?_
  · exact hfacts.frame (fun entry hget => ⟨entry, hget, rfl⟩) id id
  · rw [inferring_same (g := g) (by rw [inference?_held rfl, inference?_held hg])]
    exact hfine.inferring

/-- An object shows what its model is published with. -/
theorem CoreFine.shown (hfine : CoreFine config s (g ::ₘ gs))
    (hg : g.state = .held obj before h) :
    (s.objects obj).cfg.boostingTree.isSome =
      (config.fresh (g.call.modelId config)).boostingTree.isSome := by
  obtain ⟨entry, _, rfl, hmodel⟩ := hfine.own hg
  rw [hmodel.cfg]
  exact hmodel.settles.isSome

theorem CoreFine.supports (hfine : CoreFine config s (g ::ₘ gs))
    (hg : g.state = .held obj before h) :
    s.supports (g.call.modelId config) obj =
      (config.fresh (g.call.modelId config)).boostingTree.isSome := by
  rw [Core.supports]
  cases hget : s.boostingSupport.get? (g.call.modelId config) with
  | none => exact hfine.shown hg
  | some b => exact hfine.support _ b hget

theorem CoreFine.configure (hfine : CoreFine config s (g ::ₘ gs))
    (hg : g.state = .held obj before h) (hmarked : h.marked = false)
    (hboosted : h.boosted = false) (hinferring : h.inferring = false)
    (hboosts : config.boosts (g.call.modelId config) g.call.vocabulary)
    (hone : s.refCount (s.objects obj).modelId = 1) :
    CoreFine config
      (apply (Effect.configure obj (config.expandedTerms g.call.vocabulary) true) s)
      ({ g with state := .held obj before { h with boosted := true } } ::ₘ gs) := by
  have hfacts := hfine.facts hg
  rw [hfine.modelId hg] at hone
  have hnone := hfine.alone hg hone
  have hsame : ∀ o : NemoModel, ∀ terms,
      (o.boosted terms true).attention = o.attention ∧
        (o.boosted terms true).confidence = o.confidence ∧
        (o.boosted terms true).modelId = o.modelId := by
    intro o terms
    rw [NemoModel.boosted]
    split <;> exact ⟨rfl, rfl, rfl⟩
  have hobject : (s.change obj (·.boosted (config.expandedTerms g.call.vocabulary) true)).objects
      obj = (s.objects obj).boosted (config.expandedTerms g.call.vocabulary) true :=
    Function.update_self _ _ _
  refine hfine.alter hg ?_ ?_ (hsame _ _).2.2 ?_ ?_ ?_ rfl
  · rw [(hsame _ _).1]
    exact id
  · rw [(hsame _ _).2.1]
    exact id
  · intro hcfg
    rw [NemoModel.boosted]
    split
    · rfl
    · exact hcfg
  · rintro hcfg rest hsettles hrest
    rw [hnone] at hrest
    subst hrest
    exact hsettles.boost hcfg (by rw [hg]; exact hmarked) (by rw [hg]; exact hboosted) rfl hmarked
      rfl hboosts
  · refine ⟨hfacts.entry, ?_, ?_, hfacts.before, ?_⟩
    · rw [hobject, (hsame _ _).1]
      exact hfacts.attended
    · rw [hobject, (hsame _ _).2.1]
      exact hfacts.confided
    · intro h'
      exact absurd (hinferring.symm.trans h') Bool.false_ne_true

theorem CoreFine.reset (hfine : CoreFine config s (g ::ₘ gs))
    (hg : g.state = .held obj before h) (hboosted : h.boosted = true)
    (hinferring : h.inferring = false) :
    CoreFine config (apply (Effect.reset obj true) s)
      ({ g with state := .held obj before { h with boosted := false } } ::ₘ gs) := by
  have hfacts := hfine.facts hg
  have hstarts := (hfine.phases g (Multiset.mem_cons_self g gs)).1
  have hobject : (s.change obj (·.unboosted true)).objects obj = (s.objects obj).unboosted true :=
    Function.update_self _ _ _
  refine hfine.alter hg id id rfl (fun _ => rfl) ?_ ?_ rfl
  · rintro hcfg rest hsettles _
    have hboth := hsettles.not_both
    rw [hg] at hboth
    have hmarked : h.marked = false := Bool.eq_false_iff.mpr fun hm => hboth ⟨hm, hboosted⟩
    exact hsettles.reset hcfg (by rw [hg]; exact hboosted) (resets_of_starts hstarts) hmarked rfl
  · refine ⟨hfacts.entry, ?_, ?_, hfacts.before, ?_⟩
    · rw [hobject]
      exact hfacts.attended
    · rw [hobject]
      exact hfacts.confided
    · intro h'
      exact absurd (hinferring.symm.trans h') Bool.false_ne_true

theorem CoreFine.begin (hfine : CoreFine config s (g ::ₘ gs))
    (hg : g.state = .held obj before h) (hmarked : h.marked = false)
    (hinferring : h.inferring = false)
    (hboosted : h.boosted = decide (config.boosts (g.call.modelId config) g.call.vocabulary))
    (hbatch : g.call.batch = true →
      h.attended = true ∧ (config.confidence = true → h.confided = true))
    (hok : Undisturbed config s
      (.begin ⟨obj, g.call.modelId config, g.call.vocabulary, g.call.batch⟩)) :
    CoreFine config
      (apply (Effect.begin ⟨obj, g.call.modelId config, g.call.vocabulary, g.call.batch⟩) s)
      ({ g with state := .held obj before { h with inferring := true } } ::ₘ gs) := by
  have hfacts := hfine.facts hg
  have hstep : HolderStep config g.call obj s
      (apply (Effect.begin ⟨obj, g.call.modelId config, g.call.vocabulary, g.call.batch⟩) s) :=
    ⟨rfl, rfl, fun _ _ => rfl, fun _ _ => Iff.rfl, fun _ _ => Iff.rfl, id, id, id⟩
  refine hfine.note hg hstep rfl rfl rfl rfl rfl ?_ ?_
  · exact ⟨hfacts.entry, hfacts.attended, hfacts.confided, hfacts.before,
      fun _ => ⟨hmarked, hboosted, hbatch, hok⟩⟩
  · have hold := hfine.inferring
    rw [inferring_skip (by rw [inference?_held hg, hinferring]; rfl)] at hold
    rw [inferring_cons rfl, ← hold]
    rfl

theorem CoreFine.finish (hfine : CoreFine config s (g ::ₘ gs))
    (hg : g.state = .held obj before h) (hinferring : h.inferring = true) :
    CoreFine config
      (apply (Effect.finish ⟨obj, g.call.modelId config, g.call.vocabulary, g.call.batch⟩) s)
      ({ g with state := .held obj before { h with inferring := false } } ::ₘ gs) := by
  have hfacts := hfine.facts hg
  have hstep : HolderStep config g.call obj s
      (apply (Effect.finish ⟨obj, g.call.modelId config, g.call.vocabulary, g.call.batch⟩) s) :=
    ⟨rfl, rfl, fun _ _ => rfl, fun _ _ => Iff.rfl, fun _ _ => Iff.rfl, id, id, id⟩
  refine hfine.note hg hstep rfl rfl rfl rfl rfl ?_ ?_
  · exact ⟨hfacts.entry, hfacts.attended, hfacts.confided, hfacts.before, fun h' => nomatch h'⟩
  · have hold := hfine.inferring
    rw [inferring_cons (by rw [inference?_held hg, hinferring]; rfl)] at hold
    rw [inferring_skip rfl]
    have herase := congrArg (·.erase ⟨obj, g.call.modelId config, g.call.vocabulary,
      g.call.batch⟩) hold
    rw [Multiset.coe_erase, Multiset.erase_cons_head] at herase
    exact herase

section Others

variable {c : Call} {l : Phase}

theorem not_holds {g : Holder} (hg : g.state.held? = none) (m : String) :
    ¬ holds config m g := by
  intro h
  rw [holds, hg] at h
  exact Bool.false_ne_true h.1

theorem inference?_none {g : Holder} (hg : g.state.held? = none) : inference? config g = none := by
  rw [inference?, hg]
  rfl

/-- A call that holds nothing does not matter to the models. -/
theorem CoreFine.drop (hfine : CoreFine config s (g ::ₘ gs)) (hg : g.state.held? = none) :
    CoreFine config s gs := by
  refine ⟨hfine.distinct, ?_, (Multiset.forall_mem_cons.mp hfine.phases).2, hfine.support, ?_⟩
  · intro m entry hget
    have hmodel := hfine.models m entry hget
    rwa [Multiset.filter_cons_of_neg _ (not_holds hg m)] at hmodel
  · have hinferring := hfine.inferring
    rwa [inferring_skip (inference?_none hg)] at hinferring

theorem CoreFine.add (hfine : CoreFine config s gs) (hg : g.state.held? = none)
    (hstarts : StartsWell config g.call) (hphase : PhaseFine config s g.call g.state) :
    CoreFine config s (g ::ₘ gs) := by
  refine ⟨hfine.distinct, ?_, Multiset.forall_mem_cons.mpr ⟨⟨hstarts, hphase⟩, hfine.phases⟩,
    hfine.support, ?_⟩
  · intro m entry hget
    rw [Multiset.filter_cons_of_neg _ (not_holds hg m)]
    exact hfine.models m entry hget
  · rw [inferring_skip (inference?_none hg)]
    exact hfine.inferring

theorem PhaseFine.frame {s' : Core} (hphase : PhaseFine config s c l)
    (hentry : ∀ entry, s.models.get? (c.modelId config) = some entry → l.held?.isSome →
      ∃ entry', s'.models.get? (c.modelId config) = some entry' ∧ entry'.object = entry.object)
    (hobjects : ∀ entry, s.models.get? (c.modelId config) = some entry →
      s'.objects entry.object = s.objects entry.object) :
    PhaseFine config s' c l := by
  cases l with
  | held obj before h =>
      obtain ⟨entry, hget, rfl⟩ := hphase.entry
      refine hphase.frame (fun entry' hget' => hentry entry' hget' rfl) ?_ ?_
      · rw [hobjects entry hget]
        exact id
      · rw [hobjects entry hget]
        exact id
  | outside | ended _ _ | failed | astray => exact hphase

/-- Idle models are evicted without anybody noticing. -/
theorem CoreFine.evict (hfine : CoreFine config s gs) {keys : List String}
    (hidle : ∀ m ∈ keys, ∀ entry, s.models.get? m = some entry → entry.refCount = 0) :
    CoreFine config { s with models := s.models.eraseAll keys } gs := by
  refine ⟨hfine.distinct.eraseAll keys, ?_, ?_, hfine.support, hfine.inferring⟩
  · intro m entry hget
    rw [Dict.get?_eraseAll] at hget
    split at hget
    · cases hget
    · exact (hfine.models m entry hget).frame le_rfl rfl Iff.rfl Iff.rfl
  · intro g hg
    obtain ⟨hstarts, hphase⟩ := hfine.phases g hg
    refine ⟨hstarts, hphase.frame ?_ fun _ _ => rfl⟩
    intro entry hget hheld
    have hcount := (hfine.models _ entry hget).count
    have hmem : g ∈ gs.filter (holds config (g.call.modelId config)) :=
      Multiset.mem_filter.mpr ⟨hg, hheld, rfl⟩
    have hpos := Multiset.card_pos_iff_exists_mem.mpr ⟨g, hmem⟩
    refine ⟨entry, ?_, rfl⟩
    rw [Dict.get?_eraseAll, if_neg, hget]
    intro hkey
    have hzero := hidle _ hkey entry hget
    omega

theorem CoreFine.tick (hfine : CoreFine config s gs) : CoreFine config (apply Effect.tick s) gs where
  distinct := hfine.distinct
  models m entry hget := (hfine.models m entry hget).frame le_rfl rfl Iff.rfl Iff.rfl
  phases g hg :=
    ⟨(hfine.phases g hg).1,
      (hfine.phases g hg).2.frame (fun entry hget _ => ⟨entry, hget, rfl⟩) fun _ _ => rfl⟩
  support := hfine.support
  inferring := hfine.inferring

/-- Making room only evicts an idle model. -/
theorem CoreFine.makeRoom (hfine : CoreFine config s gs) {maxLoaded : Nat} {s' : Core}
    (h : s.makeRoom maxLoaded = some s') :
    CoreFine config s' gs ∧ (∀ m, s.models.get? m = none → s'.models.get? m = none) ∧
      s'.localAttentionApplied = s.localAttentionApplied ∧
      s'.confidenceApplied = s.confidenceApplied := by
  rw [Core.makeRoom] at h
  split at h
  · obtain rfl := Option.some.inj h
    exact ⟨hfine, fun _ => id, rfl, rfl⟩
  · split at h
    · cases h
    next lru entry hlru =>
      obtain rfl := Option.some.inj h
      obtain ⟨hmem, hzero⟩ := List.mem_filter.mp (oldest_mem hlru)
      rw [Dict.erase_eq_eraseAll]
      refine ⟨?_, ?_, rfl, rfl⟩
      · refine hfine.evict ?_
        intro m hm entry' hget
        obtain rfl := List.mem_singleton.mp hm
        rw [hfine.distinct.get?_of_mem hmem] at hget
        obtain rfl := Option.some.inj hget
        exact of_decide_eq_true hzero
      · intro m hget
        rw [Dict.get?_eraseAll]
        split
        · rfl
        · exact hget

/-- The object is released settled. -/
theorem CoreFine.release (hfine : CoreFine config s (g ::ₘ gs))
    (hg : g.state = .held obj before h) (hmarked : h.marked = false) (hboosted : h.boosted = false)
    (hinferring : h.inferring = false) :
    CoreFine config (s.release (g.call.modelId config)) gs ∧
      (s.objects obj).decoding =
        current config (g.call.modelId config) (s.objects obj).confidence := by
  obtain ⟨entry, hget, hobj, hmodel⟩ := hfine.own hg
  obtain ⟨hsettles, hdecoding⟩ := hmodel.settles.release (by rw [hg]; exact hmarked)
    (by rw [hg]; exact hboosted)
  rw [hobj] at hdecoding
  refine ⟨?_, hdecoding⟩
  rw [Core.release, hget]
  refine ⟨hfine.distinct.set _ _, ?_, ?_, hfine.support, ?_⟩
  · intro m entry' hget'
    rw [Dict.get?_set] at hget'
    split at hget'
    next heq =>
      subst heq
      obtain rfl := Option.some.inj hget'
      refine ⟨hmodel.created, hmodel.model, hmodel.attention, ?_, hmodel.cfg, hsettles⟩
      have hcount := hmodel.count
      rw [Multiset.card_cons] at hcount
      exact Nat.sub_eq_of_eq_add hcount
    next hne =>
      have hold := hfine.models m entry' hget'
      rw [Multiset.filter_cons_of_neg _ fun hh => hne hh.2] at hold
      exact hold.frame le_rfl rfl Iff.rfl Iff.rfl
  · intro g' hg'
    obtain ⟨hstarts, hphase⟩ := hfine.phases g' (Multiset.mem_cons_of_mem hg')
    refine ⟨hstarts, hphase.frame ?_ fun _ _ => rfl⟩
    intro entry' hget' _
    rw [Dict.get?_set]
    split
    next heq =>
      rw [← heq, hget] at hget'
      refine ⟨_, rfl, ?_⟩
      rw [← Option.some.inj hget']
    next => exact ⟨entry', hget', rfl⟩
  · have hold := hfine.inferring
    rwa [inferring_skip (by rw [inference?_held hg, hinferring]; rfl)] at hold

/-- A new holder of an object is one more to count. -/
theorem CoreFine.hold (hfine : CoreFine config s gs) (hstarts : StartsWell config c)
    {born : Core} {entry : LoadedModel}
    (hmodel : ModelFine config s (c.modelId config) entry
      (gs.filter (holds config (c.modelId config))))
    (hget : ∀ entry', s.models.get? (c.modelId config) = some entry' →
      entry'.object = entry.object)
    (hsettles : ∀ g : Holder, g.call = c → g.state.marked = false → g.state.boosted = false →
      Settles config (c.modelId config) (s.objects entry.object)
        (c.modelId config ∈ s.confidenceApplied)
        (g ::ₘ gs.filter (holds config (c.modelId config))))
    (hbefore : config.setUp before = config.base (c.modelId config)) :
    CoreFine config (s.hold (c.modelId config) entry)
      (⟨c, born, .held entry.object before ⟨false, false, false, false, false⟩⟩ ::ₘ gs) := by
  have hnew : (s.hold (c.modelId config) entry).models.get? (c.modelId config) =
      some ⟨entry.object, entry.refCount + 1, s.now⟩ := Dict.get?_set_self _ _ _
  refine ⟨hfine.distinct.set _ _, ?_, ?_, hfine.support, ?_⟩
  · intro m entry' hget'
    rw [Core.hold, Dict.get?_set] at hget'
    split at hget'
    next heq =>
      subst heq
      obtain rfl := Option.some.inj hget'
      rw [Multiset.filter_cons_of_pos _ ⟨rfl, rfl⟩]
      refine ⟨hmodel.created, hmodel.model, hmodel.attention, ?_, hmodel.cfg,
        hsettles _ rfl rfl rfl⟩
      rw [Multiset.card_cons, hmodel.count]
    next hne =>
      rw [Multiset.filter_cons_of_neg _ fun hh => hne hh.2]
      exact (hfine.models m entry' hget').frame le_rfl rfl Iff.rfl Iff.rfl
  · refine Multiset.forall_mem_cons.mpr ⟨⟨hstarts, ?_⟩, ?_⟩
    · exact ⟨⟨_, hnew, rfl⟩, fun h => (nomatch h), fun h => (nomatch h), hbefore,
        fun h => (nomatch h)⟩
    · intro g' hg'
      obtain ⟨hstarts', hphase⟩ := hfine.phases g' hg'
      refine ⟨hstarts', hphase.frame ?_ fun _ _ => rfl⟩
      intro entry' hget' _
      rw [Core.hold, Dict.get?_set]
      split
      next heq =>
        rw [← heq] at hget'
        exact ⟨_, rfl, (hget entry' hget').symm⟩
      next => exact ⟨entry', hget', rfl⟩
  · rw [inferring_skip rfl]
    exact hfine.inferring

/-- A new object is settled. -/
theorem CoreFine.load (hfine : CoreFine config s gs) {m : String}
    (hnone : s.models.get? m = none) (hattention : m ∉ s.localAttentionApplied)
    (hconfidence : m ∉ s.confidenceApplied) (now : Nat) :
    CoreFine config (s.load m (config.fresh m)) gs ∧
      ModelFine config (s.load m (config.fresh m)) m ⟨s.created, 0, now⟩
        (gs.filter (holds config m)) := by
  have hobject : (s.load m (config.fresh m)).objects s.created =
      ⟨m, false, false, config.fresh m, config.fresh m⟩ := Function.update_self _ _ _
  have hnobody : gs.filter (holds config m) = 0 := by
    refine Multiset.filter_eq_nil.mpr ?_
    rintro g hg ⟨hheld, rfl⟩
    have hphase := (hfine.phases g hg).2
    cases hstate : g.state with
    | held obj before h =>
        rw [hstate] at hphase
        obtain ⟨entry, hget, _⟩ := hphase.entry
        rw [hnone] at hget
        cases hget
    | outside | ended _ _ | failed | astray =>
        rw [hstate] at hheld
        exact Bool.false_ne_true hheld
  refine ⟨⟨hfine.distinct, ?_, ?_, hfine.support, hfine.inferring⟩, ?_⟩
  · intro m' entry hget
    have hmodel := hfine.models m' entry hget
    exact hmodel.frame (Nat.le_succ _) (Function.update_of_ne hmodel.created.ne _ _) Iff.rfl Iff.rfl
  · intro g hg
    obtain ⟨hstarts, hphase⟩ := hfine.phases g hg
    refine ⟨hstarts, hphase.frame (fun entry hget _ => ⟨entry, hget, rfl⟩) ?_⟩
    intro entry hget
    exact Function.update_of_ne (hfine.models _ entry hget).created.ne _ _
  · rw [hnobody]
    refine ⟨Nat.lt_succ_self _, ?_, fun h => absurd h hattention, rfl, ?_, ?_⟩
    · rw [hobject]
    · rw [hobject]
    · rw [hobject]
      exact .quiet (fun g hg => absurd hg (Multiset.notMem_zero g)) rfl
        fun h => absurd h hconfidence

/-- What an acquisition leaves: the object with one more holder, or nothing new. -/
def Acquired (config : Config) (c : Call) (born : Core) (gs : Multiset Holder) :
    Core × Option Nat → Prop
  | (s', none) => CoreFine config s' gs
  | (s', some obj) => CoreFine config s'
      (⟨c, born, .held obj (s'.objects obj).decoding ⟨false, false, false, false, false⟩⟩ ::ₘ gs)

/-- The manager hands out an object that is settled, or refuses. -/
theorem CoreFine.acquire (hfine : CoreFine config s gs) (hstarts : StartsWell config c)
    {loads : Bool} (hok : Undisturbed config s (.acquire (c.modelId config) config.maxLoaded
      (loaded config (c.modelId config) loads))) (born : Core) :
    Acquired config c born gs (s.acquire (c.modelId config) config.maxLoaded
      (loaded config (c.modelId config) loads)) := by
  obtain ⟨hloadedOk, hfreshOk⟩ := hok
  cases hget : s.models.get? (c.modelId config) with
  | some entry =>
      obtain ⟨hset, hkey⟩ := hloadedOk entry hget
      have hmodel := hfine.models _ entry hget
      have hresets : ∀ g₀ ∈ gs.filter (holds config (c.modelId config)),
          config.boosts (c.modelId config) g₀.call.vocabulary →
            (config.base (c.modelId config)).Resets := by
        intro g₀ hg₀ hboosts
        obtain ⟨hmem, _, hid⟩ := Multiset.mem_filter.mp hg₀
        rw [← hid] at hboosts ⊢
        exact resets_of_starts (hfine.phases g₀ hmem).1 hboosts
      have hacquire := fun (g : Holder) hm hb =>
        hmodel.settles.acquire (g := g) hset hkey hresets hm hb
      have hdecoding := (hacquire ⟨c, s, .outside⟩ rfl rfl).2
      rw [Core.acquire_of_loaded hget]
      refine hfine.hold hstarts hmodel ?_ (fun g _ hm hb => (hacquire g hm hb).1) ?_
      · intro entry' hget'
        rw [Option.some.inj (hget'.symm.trans hget)]
      · rw [Core.hold, hdecoding, setUp_current]
  | none =>
      cases hroom : s.makeRoom config.maxLoaded with
      | none =>
          rw [Core.acquire_of_full hget hroom]
          exact hfine
      | some room =>
          obtain ⟨hroomFine, hnone, hids⟩ := hfine.makeRoom hroom
          cases loads with
          | false =>
              rw [loaded, if_neg Bool.false_ne_true, Core.acquire_of_failed hget hroom]
              exact hroomFine
          | true =>
              obtain ⟨hattention, hconfidence⟩ := hfreshOk hget rfl
              rw [loaded, if_pos rfl, Core.acquire_of_room hget hroom]
              obtain ⟨hloaded, hmodel⟩ := hroomFine.load (hnone _ hget) (hids.1 ▸ hattention)
                (hids.2 ▸ hconfidence) room.now
              have hobject : (room.load (c.modelId config)
                  (config.fresh (c.modelId config))).objects room.created =
                  ⟨c.modelId config, false, false, config.fresh (c.modelId config),
                    config.fresh (c.modelId config)⟩ := Function.update_self _ _ _
              refine hloaded.hold hstarts hmodel ?_ ?_ ?_
              · intro entry' hget'
                exact absurd (hget'.symm.trans (hnone _ hget)) (Option.some_ne_none _)
              · intro g _ hm hb
                refine (hmodel.settles.acquire ?_ ?_ ?_ hm hb).1
                · exact fun h => absurd (hids.2 ▸ h) hconfidence
                · rw [hobject]
                · intro g₀ hg₀ hboosts
                  obtain ⟨hmem, _, hid⟩ := Multiset.mem_filter.mp hg₀
                  rw [← hid] at hboosts ⊢
                  exact resets_of_starts (hloaded.phases g₀ hmem).1 hboosts
              · rw [Core.hold, hobject]
                exact rfl

/-- The step lemma: an undisturbed step of a call keeps every object accounted for. -/
theorem CoreFine.moves {e : Effect} (hfine : CoreFine config s (g ::ₘ gs))
    (hok : Undisturbed config s e) (hmove : Moves config g.call g.state s e l) :
    CoreFine config (apply e s) ({ g with state := l } ::ₘ gs) := by
  have hstarts := (hfine.phases g (Multiset.mem_cons_self g gs)).1
  have hphase := (hfine.phases g (Multiset.mem_cons_self g gs)).2
  generalize hg : g.state = l₀ at hmove hphase
  cases hmove with
  | acquire _ loads hresult =>
      have hacquired := (hfine.drop (by rw [hg]; rfl)).acquire hstarts hok g.born
      rw [← Prod.eta (s.acquire _ _ _), hresult] at hacquired
      exact hacquired
  | refuse _ loads hresult =>
      have hacquired := (hfine.drop (by rw [hg]; rfl)).acquire hstarts hok g.born
      rw [← Prod.eta (s.acquire _ _ _), hresult] at hacquired
      exact CoreFine.add (g := { g with state := .failed }) hacquired rfl hstarts trivial
  | look _ h => exact hfine.lookOn hg
  | attentionKnown _ hknown => exact hfine.learnAttention hg hknown
  | enable _ => exact hfine.enable hg
  | markAttention _ hattended => exact hfine.markAttention hg hattended
  | confidenceKnown _ hmarked hknown => exact hfine.learnConfidence hg hmarked hknown
  | markConfidence _ hboosted hinferring => exact hfine.markConfidence hg hboosted hinferring hok
  | applyConfidence _ hon hmarked => exact hfine.applyConfidence hg hon hmarked
  | probe _ hshown => exact hfine.probe hg hshown
  | probeElse _ hshown => exact absurd (hfine.supports hg) hshown
  | configure _ hmarked hboosted hinferring hboosts _ =>
      exact hfine.configure hg hmarked hboosted hinferring hboosts hok
  | configureElse _ hboosts hshown =>
      have htree := (hfine.shown hg).trans hboosts.2
      exact absurd (hshown.symm.trans htree) Bool.false_ne_true
  | begin _ hmarked hinferring hboosted hbatch =>
      exact hfine.begin hg hmarked hinferring hboosted hbatch hok
  | finish _ hinferring => exact hfine.finish hg hinferring
  | reset _ hboosted hinferring => exact hfine.reset hg hboosted hinferring
  | release _ hmarked hboosted hinferring hbatch =>
      obtain ⟨hreleased, hdecoding⟩ := hfine.release hg hmarked hboosted hinferring
      refine CoreFine.add hreleased rfl hstarts ?_
      intro hb
      rw [hdecoding, hphase.before]
      exact current_eq_base fun hon => .inl (hphase.confided (hbatch hb hon))
  | astray _ _ => exact hphase.elim

end Others

end Moves

/-- Every inference under way is covered by its holder. -/
theorem CoreFine.holder_of_inferring {s : Core} {gs : Multiset Holder}
    (hfine : CoreFine config s gs) {inference : Inference} (h : inference ∈ s.inferring) :
    ∃ g ∈ gs, ∃ before held, g.state = .held inference.object before held ∧
      held.inferring = true ∧
      inference = ⟨inference.object, g.call.modelId config, g.call.vocabulary, g.call.batch⟩ := by
  have hmem : inference ∈ gs.filterMap (inference? config) := by
    rw [← hfine.inferring]
    exact Multiset.mem_coe.mpr h
  obtain ⟨g, hg, hinference⟩ := (Multiset.mem_filterMap _ _).mp hmem
  cases hstate : g.state with
  | held obj before held =>
      rw [inference?_held hstate] at hinference
      split at hinference
      next hinferring =>
        obtain rfl := Option.some.inj hinference
        exact ⟨g, hg, before, held, hstate, hinferring, rfl⟩
      next => cases hinference
  | outside | ended _ _ | failed | astray =>
      rw [inference?_none (by rw [hstate]; rfl)] at hinference
      cases hinference

end Invariant

section Runs

variable {config : Config}

/-- The objects are accounted for, and the tasks that have returned left them as they were. -/
structure Accounts (config : Config) (s : Shared Call Effect Core Reply)
    (gs : Multiset Holder) : Prop where
  core : CoreFine config s.store gs
  returned : ∀ ret ∈ s.returned, ret.call.vocabulary ≠ [] → ∀ before after transcribed,
    ret.result = .ended before after transcribed → after = config.setUp before

theorem accounts_preserved :
    Preserved (Call.code config) (Moves config) (fun _ => True) (fun _ => Ends)
      (fun _ => .outside) (Alone config) (Accounts config) := by
  constructor
  case code => exact fun _ c hok => follows_code hok
  case store => exact fun _ _ _ => trivial
  case start =>
    intro pool gs c _ h hok
    exact ⟨CoreFine.add h.core rfl hok trivial, h.returned⟩
  case move =>
    intro pool g gs i e l h hok hnext _ hmove
    exact ⟨h.core.moves (hok e hnext) hmove, h.returned⟩
  case done =>
    intro pool g gs reply h hend
    have hphase := (h.core.phases g (Multiset.mem_cons_self g gs)).2
    have hnone : g.state.held? = none := by
      cases hstate : g.state with
      | held obj before held =>
          rw [hstate] at hend
          exact hend.elim
      | outside | ended _ _ | failed | astray => rfl
    refine ⟨h.core.drop hnone, ?_⟩
    intro ret hret hvocabulary before after transcribed hresult
    rcases List.mem_cons.mp hret with rfl | hret
    · have hbatch : g.call.batch = true := by
        cases hcall : g.call with
        | task r => rfl
        | utterance m loads transcribes | preload m loads =>
            rw [show Call.vocabulary _ = g.call.vocabulary from rfl, hcall] at hvocabulary
            exact absurd rfl hvocabulary
      cases hstate : g.state with
      | ended before' after' =>
          rw [hstate] at hend hphase
          obtain ⟨transcribed', hreply⟩ := hend
          obtain ⟨rfl, rfl, _⟩ := Reply.ended.inj (hreply.symm.trans hresult)
          exact hphase hbatch
      | failed =>
          rw [hstate] at hend
          exact nomatch hend.symm.trans hresult
      | outside | held _ _ _ =>
          rw [hstate] at hend
          exact hend.elim
      | astray =>
          rw [hstate] at hphase
          exact hphase.elim
    · exact h.returned ret hret hvocabulary before after transcribed hresult
  case fail => exact fun _ _ _ _ _ _ hok => hok.elim
  case outside =>
    intro pool gs e _ h hok
    refine ⟨?_, h.returned⟩
    cases e with
    | evictExpired ttlSeconds =>
        refine h.core.evict ?_
        intro m hm entry hget
        obtain ⟨⟨m', entry'⟩, hmem, rfl⟩ := List.mem_map.mp hm
        obtain ⟨hmem, hexpired⟩ := List.mem_filter.mp hmem
        rw [h.core.distinct.get?_of_mem hmem] at hget
        obtain rfl := Option.some.inj hget
        exact (of_decide_eq_true hexpired).1
    | tick => exact h.core.tick
    | acquire _ _ _ | release _ | read | enableAttention _ | markAttention _ | markConfidence _
    | applyConfidence _ _ | probe _ _ | configure _ _ _ | begin _ | finish _ | reset _ _ =>
        exact hok.elim

theorem coreFine_started : CoreFine config Core.started 0 where
  distinct := List.nodup_nil
  models _ _ h := nomatch h
  phases g hg := absurd hg (Multiset.notMem_zero g)
  support _ _ h := nomatch h
  inferring := rfl

/-- Where no model is set up twice and every object is configured alone, every inference runs
on an object with the set-up and the configuration that are its own. -/
theorem configured_of_alone {pool : NemoPool}
    (run : Pool.Run (Call.code config) (Alone config) (Pool.idle Core.started) pool) :
    Configured config pool := by
  obtain ⟨gs, _, h⟩ := accounts_preserved.run run
    ⟨0, Pool.matches_idle _, coreFine_started, fun _ hret => absurd hret List.not_mem_nil⟩
  refine ⟨?_, ?_, ?_, h.returned⟩
  · intro inference hmem hbatch
    obtain ⟨g, hg, before, held, hstate, hinferring, heq⟩ := h.core.holder_of_inferring hmem
    have hphase := (h.core.phases g hg).2
    rw [hstate] at hphase
    rw [heq] at hbatch
    exact hphase.attended ((hphase.inferring hinferring).2.2.1 hbatch).1
  · intro inference hmem hbatch hon
    obtain ⟨g, hg, before, held, hstate, hinferring, heq⟩ := h.core.holder_of_inferring hmem
    have hphase := (h.core.phases g hg).2
    rw [hstate] at hphase
    rw [heq] at hbatch
    exact hphase.confided (((hphase.inferring hinferring).2.2.1 hbatch).2 hon)
  · intro inference hmem
    obtain ⟨g, hg, before, held, hstate, hinferring, heq⟩ := h.core.holder_of_inferring hmem
    have hphase := (h.core.phases g hg).2
    rw [hstate] at hphase
    obtain ⟨hmarked, hboosted, hbatch, hother⟩ := hphase.inferring hinferring
    obtain ⟨entry, hget, hobj⟩ := hphase.entry
    have hconfidence : config.confidence = true →
        (pool.store.objects inference.object).confidence = true ∨
          (config.fresh (g.call.modelId config)).preserveWordConfidence = true := by
      intro hon
      cases hb : g.call.batch with
      | true => exact .inl (hphase.confided ((hbatch hb).2 hon))
      | false => exact hother hb hon
    have hmem : g ∈ gs.filter (holds config (g.call.modelId config)) :=
      Multiset.mem_filter.mpr ⟨hg, holds_of_held hstate⟩
    rw [← hobj] at hconfidence ⊢
    rw [heq]
    refine (h.core.models _ entry hget).settles.decoding_of_mem hmem ?_ ?_ hconfidence
    · rw [hstate]
      exact hmarked
    · rw [hstate]
      exact hboosted

end Runs

section Samples

def plainDecoding : DecodingConfig := ⟨"greedy_batch", false, some ⟨none, 1, 2⟩, 0⟩

def sampleConfig (confidence : Bool) : Config where
  defaultModelId := "tdt"
  maxLoaded := 2
  ttlSeconds := 0
  confidence := confidence
  fresh _ := plainDecoding
  lower := id
  upper := id
  capitalize := id

def smoothTask (vocabulary : List String) : Call :=
  .task ⟨none, vocabulary, true, true, true, true, true, true, true⟩

/-- A task boosts its vocabulary, and an utterance follows. -/
def boostTurns : List (Turn Call Effect) :=
  .start (smoothTask ["Bizzon"]) :: .start (.utterance "tdt" true true) ::
    List.replicate 16 (.move 0)

/-- A model is used, evicted, and loaded again for another task. -/
def reloadTurns : List (Turn Call Effect) :=
  .start (smoothTask []) :: List.replicate 8 (.move 0) ++
    [.outside .tick, .outside (.evictExpired 0), .start (smoothTask [])] ++
    List.replicate 3 (.move 0)

def samplePool (confidence : Bool) (turns : List (Turn Call Effect)) : NemoPool :=
  (Pool.idle Core.started).turns (Call.code (sampleConfig confidence)) turns

end Samples

theorem configured_of_alone_sample :
    (samplePool true boostTurns).returned.length = 1 ∧
      (samplePool true boostTurns).store.inferring = [⟨0, "tdt", [], false⟩] ∧
      Configured (sampleConfig true) (samplePool true boostTurns) := by
  have hallowed : Pool.Allowed (Call.code (sampleConfig true)) (Alone (sampleConfig true))
      (Pool.idle Core.started) boostTurns := by
    decide +kernel
  exact ⟨by decide +kernel, by decide +kernel,
    configured_of_alone (Pool.run_of_allowed hallowed)⟩

/-- A task runs on an object that was loaded again, without local attention. -/
theorem reloaded_unattended :
    ¬ ∀ (config : Config) (pool : NemoPool),
      Pool.Run (Call.code config) (AnyOrder config) (Pool.idle Core.started) pool →
        Configured config pool := by
  intro hclaim
  have hallowed : Pool.Allowed (Call.code (sampleConfig false)) (AnyOrder (sampleConfig false))
      (Pool.idle Core.started) reloadTurns := by
    decide +kernel
  have hconfigured := hclaim _ _ (Pool.run_of_allowed hallowed)
  have hinferring : ⟨1, "tdt", [], true⟩ ∈ (samplePool false reloadTurns).store.inferring := by
    decide +kernel
  have hattention :
      ((samplePool false reloadTurns).store.objects 1).attention = false := by
    decide +kernel
  have hset := hconfigured.attention _ hinferring rfl
  exact absurd (hattention.symm.trans hset) Bool.false_ne_true

end Dalston.Engines.Nemo
