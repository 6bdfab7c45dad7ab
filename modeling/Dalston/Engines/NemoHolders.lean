import Dalston.Engines.NemoModels

/-!
# The way of a holder

A call of the shared models acquires an object, sets it up, configures its vocabulary,
infers, resets the object and releases it. When neither the library nor the file system
fails the configuration, a task goes through these in order.
-/

namespace Dalston.Engines.Nemo

open Foundation

/-- A reset after boosting leaves the configuration as it was. -/
def DecodingConfig.Resets (c : DecodingConfig) : Prop := (c.boost []).reset = c

instance (c : DecodingConfig) : Decidable c.Resets := inferInstanceAs (Decidable (_ = _))

section Starts

variable (config : Config)

/-- The library and the file system do not fail the set-up of confidence and of a vocabulary,
and a reset leaves the configuration of a model whose vocabulary is boosted. -/
def StartsWell : Call → Prop
  | .task r =>
      (config.confidence = true → r.confides = true) ∧
        (r.vocabulary ≠ [] →
          r.writes = true ∧ r.configures = true ∧ r.unlinks = true ∧ r.resets = true) ∧
        (config.boosts (r.modelId config) r.vocabulary → (config.base (r.modelId config)).Resets)
  | .utterance _ _ _ | .preload _ _ => True

instance : ∀ c, Decidable (StartsWell config c)
  | .task r =>
      inferInstanceAs (Decidable ((config.confidence = true → r.confides = true) ∧
        (r.vocabulary ≠ [] →
          r.writes = true ∧ r.configures = true ∧ r.unlinks = true ∧ r.resets = true) ∧
        (config.boosts (r.modelId config) r.vocabulary →
          (config.base (r.modelId config)).Resets)))
  | .utterance _ _ _ | .preload _ _ => isTrue trivial

end Starts

section Protocol

variable {config : Config}

/-- What a holder has done with its object. -/
structure Held where
  attended : Bool
  confided : Bool
  marked : Bool
  boosted : Bool
  inferring : Bool

inductive Phase
  | outside
  | held (obj : Nat) (before : DecodingConfig) (h : Held)
  | ended (before after : DecodingConfig)
  | failed
  /-- The object does not show what the model is published with. -/
  | astray

namespace Phase

def held? : Phase → Option (Nat × Held)
  | held obj _ h => some (obj, h)
  | outside | ended _ _ | failed | astray => none

def marked : Phase → Bool
  | held _ _ h => h.marked
  | outside | ended _ _ | failed | astray => false

def boosted : Phase → Bool
  | held _ _ h => h.boosted
  | outside | ended _ _ | failed | astray => false

end Phase

inductive Moves (config : Config) (c : Call) : Phase → Core → Effect → Phase → Prop
  | acquire (s : Core) (loads : Bool) {obj : Nat}
      (h : (s.acquire (c.modelId config) config.maxLoaded
        (loaded config (c.modelId config) loads)).2 = some obj) :
      Moves config c .outside s
        (.acquire (c.modelId config) config.maxLoaded (loaded config (c.modelId config) loads))
        (.held obj ((s.acquire (c.modelId config) config.maxLoaded
          (loaded config (c.modelId config) loads)).1.objects obj).decoding
          ⟨false, false, false, false, false⟩)
  | refuse (s : Core) (loads : Bool)
      (h : (s.acquire (c.modelId config) config.maxLoaded
        (loaded config (c.modelId config) loads)).2 = none) :
      Moves config c .outside s
        (.acquire (c.modelId config) config.maxLoaded (loaded config (c.modelId config) loads))
        .failed
  | look (s : Core) {obj : Nat} {before : DecodingConfig} (h : Held) :
      Moves config c (.held obj before h) s .read (.held obj before h)
  | attentionKnown (s : Core) {obj : Nat} {before : DecodingConfig} {h : Held}
      (hknown : c.modelId config ∈ s.localAttentionApplied) :
      Moves config c (.held obj before h) s .read (.held obj before { h with attended := true })
  | enable (s : Core) {obj : Nat} {before : DecodingConfig} {h : Held} :
      Moves config c (.held obj before h) s (.enableAttention obj)
        (.held obj before { h with attended := true })
  | markAttention (s : Core) {obj : Nat} {before : DecodingConfig} {h : Held}
      (hattended : h.attended = true) :
      Moves config c (.held obj before h) s (.markAttention (c.modelId config))
        (.held obj before h)
  | confidenceKnown (s : Core) {obj : Nat} {before : DecodingConfig} {h : Held}
      (hmarked : h.marked = false) (hknown : c.modelId config ∈ s.confidenceApplied) :
      Moves config c (.held obj before h) s .read (.held obj before { h with confided := true })
  | markConfidence (s : Core) {obj : Nat} {before : DecodingConfig} {h : Held}
      (hboosted : h.boosted = false) (hinferring : h.inferring = false) :
      Moves config c (.held obj before h) s (.markConfidence (c.modelId config))
        (.held obj before { h with marked := true })
  | applyConfidence (s : Core) {obj : Nat} {before : DecodingConfig} {h : Held}
      (hon : config.confidence = true) (hmarked : h.marked = true) :
      Moves config c (.held obj before h) s (.applyConfidence obj true)
        (.held obj before { h with marked := false, confided := true })
  | probe (s : Core) {obj : Nat} {before : DecodingConfig} {h : Held}
      (hshown : s.supports (c.modelId config) obj =
        (config.fresh (c.modelId config)).boostingTree.isSome) :
      Moves config c (.held obj before h) s (.probe (c.modelId config) obj)
        (.held obj before h)
  | probeElse (s : Core) {obj : Nat} {before : DecodingConfig} {h : Held}
      (hshown : s.supports (c.modelId config) obj ≠
        (config.fresh (c.modelId config)).boostingTree.isSome) :
      Moves config c (.held obj before h) s (.probe (c.modelId config) obj) .astray
  | configure (s : Core) {obj : Nat} {before : DecodingConfig} {h : Held}
      (hmarked : h.marked = false) (hboosted : h.boosted = false)
      (hinferring : h.inferring = false)
      (hboosts : config.boosts (c.modelId config) c.vocabulary)
      (hshown : (s.objects obj).cfg.boostingTree.isSome = true) :
      Moves config c (.held obj before h) s
        (.configure obj (config.expandedTerms c.vocabulary) true)
        (.held obj before { h with boosted := true })
  | configureElse (s : Core) {obj : Nat} {before : DecodingConfig} {h : Held}
      (hboosts : config.boosts (c.modelId config) c.vocabulary)
      (hshown : (s.objects obj).cfg.boostingTree.isSome = false) :
      Moves config c (.held obj before h) s
        (.configure obj (config.expandedTerms c.vocabulary) true) .astray
  | begin (s : Core) {obj : Nat} {before : DecodingConfig} {h : Held}
      (hmarked : h.marked = false) (hinferring : h.inferring = false)
      (hboosted : h.boosted = decide (config.boosts (c.modelId config) c.vocabulary))
      (hbatch : c.batch = true →
        h.attended = true ∧ (config.confidence = true → h.confided = true)) :
      Moves config c (.held obj before h) s
        (.begin ⟨obj, c.modelId config, c.vocabulary, c.batch⟩)
        (.held obj before { h with inferring := true })
  | finish (s : Core) {obj : Nat} {before : DecodingConfig} {h : Held}
      (hinferring : h.inferring = true) :
      Moves config c (.held obj before h) s
        (.finish ⟨obj, c.modelId config, c.vocabulary, c.batch⟩)
        (.held obj before { h with inferring := false })
  | reset (s : Core) {obj : Nat} {before : DecodingConfig} {h : Held}
      (hboosted : h.boosted = true) (hinferring : h.inferring = false) :
      Moves config c (.held obj before h) s (.reset obj true)
        (.held obj before { h with boosted := false })
  | release (s : Core) {obj : Nat} {before : DecodingConfig} {h : Held}
      (hmarked : h.marked = false) (hboosted : h.boosted = false)
      (hinferring : h.inferring = false)
      (hbatch : c.batch = true → config.confidence = true → h.confided = true) :
      Moves config c (.held obj before h) s (.release (c.modelId config))
        (.ended before (s.objects obj).decoding)
  | astray (s : Core) (e : Effect) : Moves config c .astray s e .astray

/-- What a call returns from where it stands. -/
def Ends (reply : Reply) : Phase → Prop
  | .outside | .held _ _ _ => False
  | .failed => reply = .failed
  | .ended before after => ∃ transcribed, reply = .ended before after transcribed
  | .astray => True

theorem follows_astray {A : Type} {c : Call} {J : Core → Prop} (p : Work A)
    {Q : A → Phase → Prop} (hQ : ∀ a, Q a .astray) :
    p.Follows (Moves config c) J Q .astray :=
  Program.follows_of_only (G := fun _ => True) (fun _ _ => trivial)
    (fun s e _ => .astray s e) hQ

variable {J : Core → Prop} {c : Call} {obj : Nat} {before : DecodingConfig}

theorem follows_ensureLocalAttention :
    (ensureLocalAttention (c.modelId config) obj).Follows (Moves config c) J
      (fun _ l => l = .held obj before ⟨true, false, false, false, false⟩)
      (.held obj before ⟨false, false, false, false, false⟩) := by
  apply Program.follows_perform_bind.mpr
  intro s _
  by_cases hknown : c.modelId config ∈ s.localAttentionApplied
  · refine ⟨_, .attentionKnown s hknown, ?_⟩
    rw [if_pos hknown]
    rfl
  · refine ⟨_, .look s _, ?_⟩
    rw [if_neg hknown]
    apply Program.follows_perform_bind.mpr
    intro s' _
    refine ⟨_, .enable s', ?_⟩
    apply Program.follows_perform_bind.mpr
    intro s'' _
    exact ⟨_, .markAttention s'' rfl, rfl⟩

theorem follows_ensureConfidence {r : Task} (hr : config.confidence = true → r.confides = true) :
    (ensureConfidence config r (c.modelId config) obj).Follows (Moves config c) J
      (fun _ l => l = .held obj before ⟨true, config.confidence, false, false, false⟩)
      (.held obj before ⟨true, false, false, false, false⟩) := by
  cases hon : config.confidence with
  | false => simp [ensureConfidence, hon]
  | true =>
      simp only [ensureConfidence, hon, if_true]
      apply Program.follows_perform_bind.mpr
      intro s _
      by_cases hknown : c.modelId config ∈ s.confidenceApplied
      · refine ⟨_, .confidenceKnown s rfl hknown, ?_⟩
        rw [if_pos hknown]
        rfl
      · refine ⟨_, .look s _, ?_⟩
        rw [if_neg hknown]
        apply Program.follows_perform_bind.mpr
        intro s' _
        refine ⟨_, .markConfidence s' rfl rfl, ?_⟩
        rw [hr hon]
        apply Program.follows_perform_bind.mpr
        intro s'' _
        exact ⟨_, .applyConfidence s'' hon rfl, rfl⟩

/-- The vocabulary is configured exactly when it is to be boosted. -/
theorem follows_configureVocabulary {r : Task} (hc : c.vocabulary = r.vocabulary)
    (hr : r.vocabulary ≠ [] → r.writes = true ∧ r.configures = true) {confided : Bool} :
    (configureVocabulary config r (c.modelId config) obj).Follows (Moves config c) J
      (fun enabled l =>
        enabled = decide (config.boosts (c.modelId config) r.vocabulary) ∧
            l = .held obj before ⟨true, confided, false, enabled, false⟩ ∨
          l = .astray)
      (.held obj before ⟨true, confided, false, false, false⟩) := by
  rw [configureVocabulary]
  split
  next hempty =>
    simp [Config.boosts, hempty]
  next hsome =>
    obtain ⟨hwrites, hconfigures⟩ := hr hsome
    apply Program.follows_perform_bind.mpr
    intro s _
    by_cases hshown : s.supports (c.modelId config) obj =
        (config.fresh (c.modelId config)).boostingTree.isSome
    · refine ⟨_, .probe s hshown, ?_⟩
      cases hsupported : (config.fresh (c.modelId config)).boostingTree.isSome with
      | false =>
          rw [hshown, hsupported]
          exact .inl ⟨by simp [Config.boosts, hsupported], rfl⟩
      | true =>
          have hboosts : config.boosts (c.modelId config) r.vocabulary := ⟨hsome, hsupported⟩
          rw [hshown, hsupported, if_pos rfl, configureVocabularyBoosting, hwrites, if_pos rfl,
            hconfigures]
          apply Program.follows_perform_bind.mpr
          intro s' _
          cases htree : (s'.objects obj).cfg.boostingTree.isSome with
          | false =>
              refine ⟨.astray, ?_, .inr rfl⟩
              exact hc ▸ .configureElse s' (hc ▸ hboosts) htree
          | true =>
              refine ⟨.held obj before ⟨true, confided, false, true, false⟩, ?_,
                .inl ⟨by simp [hboosts], rfl⟩⟩
              exact hc ▸ .configure s' rfl rfl rfl (hc ▸ hboosts) htree
    · exact ⟨.astray, .probeElse s hshown, follows_astray _ fun _ => .inr rfl⟩

theorem follows_cleanUp {r : Task} (hr : r.vocabulary ≠ [] → r.unlinks = true ∧ r.resets = true)
    {enabled confided : Bool} (henabled : enabled = true → r.vocabulary ≠ []) :
    (cleanUp r obj enabled).Follows (Moves config c) J
      (fun _ l => l = .held obj before ⟨true, confided, false, false, false⟩)
      (.held obj before ⟨true, confided, false, enabled, false⟩) := by
  cases enabled with
  | false => exact rfl
  | true =>
      obtain ⟨hunlinks, hresets⟩ := hr (henabled rfl)
      simp only [cleanUp, hunlinks, if_true, hresets]
      apply Program.follows_perform_bind.mpr
      intro s _
      exact ⟨_, .reset s rfl rfl, rfl⟩

theorem follows_letGo {confided : Bool} {transcribed : Bool} {attended : Bool}
    (hbatch : c.batch = true → config.confidence = true → confided = true) :
    (letGo (c.modelId config) transcribed before obj).Follows (Moves config c) J Ends
      (.held obj before ⟨attended, confided, false, false, false⟩) := by
  apply Program.follows_perform_bind.mpr
  intro s _
  exact ⟨_, .release s rfl rfl rfl hbatch, transcribed, rfl⟩

theorem follows_inferAndRelease {r : Task}
    (hr : r.vocabulary ≠ [] → r.unlinks = true ∧ r.resets = true) {enabled : Bool}
    (henabled : enabled = decide (config.boosts (r.modelId config) r.vocabulary)) :
    (inferAndRelease r (r.modelId config) obj before enabled).Follows (Moves config (.task r)) J
      Ends (.held obj before ⟨true, config.confidence, false, enabled, false⟩) := by
  apply Program.follows_perform_bind.mpr
  intro s _
  refine ⟨_, .begin s rfl rfl henabled fun _ => ⟨rfl, id⟩, ?_⟩
  apply Program.follows_perform_bind.mpr
  intro s' _
  refine ⟨_, .finish s' rfl, ?_⟩
  apply Program.follows_bind.mpr
  have hvocabulary : enabled = true → r.vocabulary ≠ [] := by
    intro h
    exact (of_decide_eq_true (henabled.symm.trans h)).1
  refine Program.follows_mono (follows_cleanUp hr hvocabulary) ?_
  rintro _ _ rfl
  exact follows_letGo (c := .task r) fun _ => id

theorem follows_heldTask {r : Task} (hr : StartsWell config (.task r)) :
    (heldTask config r (r.modelId config) obj before).Follows (Moves config (.task r)) J Ends
      (.held obj before ⟨false, false, false, false, false⟩) := by
  obtain ⟨hconfides, hvocabulary, _⟩ := hr
  apply Program.follows_bind.mpr
  refine Program.follows_mono (follows_ensureLocalAttention (c := .task r)) ?_
  rintro _ _ rfl
  apply Program.follows_bind.mpr
  refine Program.follows_mono (follows_ensureConfidence (c := .task r) hconfides) ?_
  rintro _ _ rfl
  apply Program.follows_bind.mpr
  have hconfigures : r.vocabulary ≠ [] → r.writes = true ∧ r.configures = true :=
    fun h => ⟨(hvocabulary h).1, (hvocabulary h).2.1⟩
  refine Program.follows_mono (follows_configureVocabulary (c := .task r) rfl hconfigures) ?_
  rintro enabled l (⟨henabled, rfl⟩ | rfl)
  · exact follows_inferAndRelease (fun h => (hvocabulary h).2.2) henabled
  · exact follows_astray _ fun _ => trivial

/-- A call follows the protocol when it does from where it has its object. -/
theorem follows_holding {loads : Bool} {rest : DecodingConfig → Nat → Work Reply}
    (hrest : ∀ before obj, (rest before obj).Follows (Moves config c) J Ends
      (.held obj before ⟨false, false, false, false, false⟩)) :
    (holding config (c.modelId config) loads rest).Follows (Moves config c) J Ends .outside := by
  apply Program.follows_perform_bind.mpr
  intro s _
  cases hresult : (s.acquire (c.modelId config) config.maxLoaded
    (loaded config (c.modelId config) loads)).2 with
  | none =>
      refine ⟨.failed, .refuse s loads hresult, ?_⟩
      rw [← Prod.eta (s.acquire _ _ _), hresult]
      exact rfl
  | some obj =>
      refine ⟨_, .acquire s loads hresult, ?_⟩
      rw [← Prod.eta (s.acquire _ _ _), hresult]
      exact hrest _ obj

theorem follows_hear (hbatch : c.batch = false) (hvocabulary : c.vocabulary = [])
    {transcribes : Bool} :
    (hear (c.modelId config) transcribes before obj).Follows (Moves config c) J Ends
      (.held obj before ⟨false, false, false, false, false⟩) := by
  have hnone : decide (config.boosts (c.modelId config) c.vocabulary) = false := by
    simp [Config.boosts, hvocabulary]
  have hoff : c.batch = true → ∀ P : Prop, P := by
    intro h
    exact absurd (h.symm.trans hbatch) (Bool.noConfusion)
  have hinference : (⟨obj, c.modelId config, [], false⟩ : Inference) =
      ⟨obj, c.modelId config, c.vocabulary, c.batch⟩ := by
    rw [hvocabulary, hbatch]
  rw [hear, hinference]
  apply Program.follows_perform_bind.mpr
  intro s _
  refine ⟨_, .begin s rfl rfl hnone.symm fun h => hoff h _, ?_⟩
  apply Program.follows_perform_bind.mpr
  intro s' _
  refine ⟨_, .finish s' rfl, ?_⟩
  exact follows_letGo fun h => hoff h _

theorem follows_code (hc : StartsWell config c) :
    (c.code config).Follows (Moves config c) J Ends .outside := by
  cases c with
  | task r => exact follows_holding (c := .task r) fun _ _ => follows_heldTask hc
  | utterance m loads transcribes =>
      exact follows_holding (c := .utterance m loads transcribes) fun _ _ =>
        follows_hear (c := .utterance m loads transcribes) rfl rfl
  | preload m loads =>
      exact follows_holding (c := .preload m loads) fun _ _ =>
        follows_letGo (c := .preload m loads) fun h => nomatch h

end Protocol

end Dalston.Engines.Nemo
