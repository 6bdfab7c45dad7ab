import Dalston.Engines.NemoHolders

/-!
# The configuration of a shared object

The decoding configuration of an object follows from what its holders have done: nobody is
configuring it, or its only holder is between the mark and the set-up, or its only holder
has its vocabulary configured. Every step of a holder keeps one of these.
-/

namespace Dalston.Engines.Nemo

open Foundation

section Configurations

variable {config : Config} {m : String}

@[simp] theorem reset_boost (c : DecodingConfig) (terms : List String) :
    (c.boost terms).reset = (c.boost []).reset := by
  cases htree : c.boostingTree <;> simp [DecodingConfig.boost, DecodingConfig.reset, htree]

theorem resets_of_withConfidence {c : DecodingConfig} (h : c.withConfidence.Resets) :
    c.Resets := by
  obtain ⟨strategy, preserve, tree, alpha⟩ := c
  cases tree with
  | none =>
      simpa [DecodingConfig.Resets, DecodingConfig.withConfidence, DecodingConfig.boost,
        DecodingConfig.reset] using h
  | some tree =>
      simpa [DecodingConfig.Resets, DecodingConfig.withConfidence, DecodingConfig.boost,
        DecodingConfig.reset] using h

theorem keyPhrases_of_resets {c : DecodingConfig} (h : c.Resets) : c.keyPhrases = none := by
  rw [← h]
  cases htree : c.boostingTree <;>
    simp [DecodingConfig.keyPhrases, DecodingConfig.boost, DecodingConfig.reset, htree]

theorem keyPhrases_boost {c : DecodingConfig} (h : c.boostingTree.isSome) (terms : List String) :
    (c.boost terms).keyPhrases = some terms := by
  obtain ⟨tree, htree⟩ := Option.isSome_iff_exists.mp h
  simp [DecodingConfig.keyPhrases, DecodingConfig.boost, htree]

@[simp] theorem isSome_boost (c : DecodingConfig) (terms : List String) :
    (c.boost terms).boostingTree.isSome = c.boostingTree.isSome := by
  simp [DecodingConfig.boost]

/-- The configuration of an object that nobody is configuring. -/
def current (config : Config) (m : String) (confidence : Bool) : DecodingConfig :=
  if confidence then config.base m else config.fresh m

@[simp] theorem isSome_current (confidence : Bool) :
    (current config m confidence).boostingTree.isSome =
      (config.fresh m).boostingTree.isSome := by
  cases confidence with
  | false => rfl
  | true => cases hon : config.confidence <;> simp [current, Config.base, Config.setUp, hon,
      DecodingConfig.withConfidence]

theorem setUp_current (confidence : Bool) :
    config.setUp (current config m confidence) = config.base m := by
  cases hon : config.confidence <;> cases confidence <;>
    simp [current, Config.base, Config.setUp, hon, DecodingConfig.withConfidence]

theorem current_eq_base {confidence : Bool}
    (h : config.confidence = true → confidence = true ∨
      (config.fresh m).preserveWordConfidence = true) :
    current config m confidence = config.base m := by
  cases hon : config.confidence with
  | false => cases confidence <;> simp [current, Config.base, Config.setUp, hon]
  | true =>
      rcases h hon with rfl | hpreserve
      · rfl
      · have hsame : (config.fresh m).withConfidence = config.fresh m := by
          rw [DecodingConfig.withConfidence, ← hpreserve]
        cases confidence <;> simp [current, Config.base, Config.setUp, hon, hsame]

theorem withConfidence_current (hon : config.confidence = true) (confidence : Bool) :
    (current config m confidence).withConfidence = current config m true := by
  cases confidence <;>
    simp [current, Config.base, Config.setUp, hon, DecodingConfig.withConfidence]

theorem resets_current (h : (config.base m).Resets) (confidence : Bool) :
    (current config m confidence).Resets := by
  cases confidence with
  | true => exact h
  | false =>
      rw [Config.base, Config.setUp] at h
      split at h
      · exact resets_of_withConfidence h
      · exact h

theorem keyPhrases_fresh (h : (config.base m).Resets) : (config.fresh m).keyPhrases = none :=
  keyPhrases_of_resets (resets_current h false)

end Configurations

abbrev Holder := Local Call Core Phase

section Settled

variable {config : Config} {m : String} {o o' : NemoModel} {known known' : Prop}
  {g g' : Holder} {rest : Multiset Holder}

/-- The configuration of an object, from what its holders have done. -/
inductive Settles (config : Config) (m : String) (o : NemoModel) (known : Prop)
    (holders : Multiset Holder) : Prop
  | quiet (hholders : ∀ g ∈ holders,
        g.state.boosted = false ∧ (g.state.marked = true → o.confidence = true))
      (hdecoding : o.decoding = current config m o.confidence)
      (hknown : known → o.confidence = true)
  | marked (g : Holder) (hholders : holders = {g}) (hmarked : g.state.marked = true)
      (hboosted : g.state.boosted = false) (hdecoding : o.decoding = current config m o.confidence)
      (hknown : known)
  | boosted (g : Holder) (hholders : holders = {g}) (hmarked : g.state.marked = false)
      (hboosted : g.state.boosted = true) (hboosts : config.boosts m g.call.vocabulary)
      (hdecoding : o.decoding =
        (current config m o.confidence).boost (config.expandedTerms g.call.vocabulary))
      (hknown : known → o.confidence = true)

namespace Settles

theorem isSome (h : Settles config m o known rest) :
    o.decoding.boostingTree.isSome = (config.fresh m).boostingTree.isSome := by
  cases h with
  | quiet _ hdecoding _ => rw [hdecoding, isSome_current]
  | marked _ _ _ _ hdecoding _ => rw [hdecoding, isSome_current]
  | boosted _ _ _ _ _ hdecoding _ => rw [hdecoding, isSome_boost, isSome_current]

/-- No holder is between the mark and its set-up and has its vocabulary configured. -/
theorem not_both (h : Settles config m o known (g ::ₘ rest)) :
    ¬ (g.state.marked = true ∧ g.state.boosted = true) := by
  rintro ⟨hmarked, hboosted⟩
  cases h with
  | quiet hholders _ _ =>
      have hb := (hholders g (Multiset.mem_cons_self g rest)).1
      exact absurd (hb.symm.trans hboosted) Bool.false_ne_true
  | marked g₀ hholders _ hb _ _ =>
      obtain ⟨rfl, _⟩ := (Multiset.singleton_eq_cons_iff _).mp hholders.symm
      exact absurd (hb.symm.trans hboosted) Bool.false_ne_true
  | boosted g₀ hholders hm _ _ _ _ =>
      obtain ⟨rfl, _⟩ := (Multiset.singleton_eq_cons_iff _).mp hholders.symm
      exact absurd (hm.symm.trans hmarked) Bool.false_ne_true

/-- A marked id has been set up, seen from a holder that is not setting it up. -/
theorem confidence (h : Settles config m o known (g ::ₘ rest)) (hmarked : g.state.marked = false)
    (hknown : known) : o.confidence = true := by
  cases h with
  | quiet _ _ hset => exact hset hknown
  | boosted _ _ _ _ _ _ hset => exact hset hknown
  | marked g₀ hholders hm _ _ _ =>
      obtain ⟨rfl, _⟩ := (Multiset.singleton_eq_cons_iff _).mp hholders.symm
      exact absurd (hmarked.symm.trans hm) Bool.false_ne_true

/-- Nothing is configured while a holder only looks, or sets up attention. -/
theorem keep (h : Settles config m o known (g ::ₘ rest)) (hconfidence : o'.confidence = o.confidence)
    (hdecoding : o'.decoding = o.decoding) (hcall : g'.call = g.call)
    (hmarked : g'.state.marked = g.state.marked) (hboosted : g'.state.boosted = g.state.boosted) :
    Settles config m o' known (g' ::ₘ rest) := by
  cases h with
  | quiet hholders hd hknown =>
      obtain ⟨hg, hrest⟩ := Multiset.forall_mem_cons.mp hholders
      refine .quiet ?_ (by rw [hdecoding, hconfidence, hd]) (by rwa [hconfidence])
      rw [hconfidence]
      refine Multiset.forall_mem_cons.mpr ⟨?_, hrest⟩
      rwa [hboosted, hmarked]
  | marked g₀ hholders hm hb hd hknown =>
      obtain ⟨rfl, rfl⟩ := (Multiset.singleton_eq_cons_iff _).mp hholders.symm
      exact .marked g' rfl (hmarked.trans hm) (hboosted.trans hb)
        (by rw [hdecoding, hconfidence, hd]) hknown
  | boosted g₀ hholders hm hb hboosts hd hknown =>
      obtain ⟨rfl, rfl⟩ := (Multiset.singleton_eq_cons_iff _).mp hholders.symm
      exact .boosted g' rfl (hmarked.trans hm) (hboosted.trans hb) (hcall ▸ hboosts)
        (by rw [hdecoding, hconfidence, hd, hcall]) (by rwa [hconfidence])

/-- The only holder marks the id. -/
theorem mark (h : Settles config m o known {g}) (hg : g.state.boosted = false)
    (hmarked : g'.state.marked = true) (hboosted : g'.state.boosted = false) (hknown : known') :
    Settles config m o known' {g'} := by
  cases h with
  | quiet _ hdecoding _ => exact .marked g' rfl hmarked hboosted hdecoding hknown
  | marked _ _ _ _ hdecoding _ => exact .marked g' rfl hmarked hboosted hdecoding hknown
  | boosted g₀ hholders _ hb _ _ _ =>
      obtain rfl := Multiset.singleton_inj.mp hholders
      exact absurd (hg.symm.trans hb) Bool.false_ne_true

theorem confide (h : Settles config m o known (g ::ₘ rest)) (hon : config.confidence = true)
    (hcfg : o.cfg = o.decoding) (hg : g.state.marked = true)
    (hmarked : g'.state.marked = false) (hboosted : g'.state.boosted = false) :
    Settles config m (o.confident true) known (g' ::ₘ rest) := by
  have hdecoding : o.decoding = current config m o.confidence →
      (o.confident true).decoding = current config m true := by
    intro hd
    simp [NemoModel.confident, NemoModel.applied, hcfg, hd, withConfidence_current hon]
  cases h with
  | quiet hholders hd hknown =>
      refine .quiet ?_ (hdecoding hd) fun _ => rfl
      intro g₀ hg₀
      rcases Multiset.mem_cons.mp hg₀ with rfl | hg₀
      · exact ⟨hboosted, fun _ => rfl⟩
      · exact ⟨(hholders g₀ (Multiset.mem_cons_of_mem hg₀)).1, fun _ => rfl⟩
  | marked g₀ hholders hm hb hd hknown =>
      obtain ⟨rfl, rfl⟩ := (Multiset.singleton_eq_cons_iff _).mp hholders.symm
      refine .quiet ?_ (hdecoding hd) fun _ => rfl
      intro g₁ hg₁
      obtain rfl := Multiset.mem_singleton.mp hg₁
      exact ⟨hboosted, fun _ => rfl⟩
  | boosted g₀ hholders hm _ _ _ _ =>
      obtain ⟨rfl, rfl⟩ := (Multiset.singleton_eq_cons_iff _).mp hholders.symm
      exact absurd (hg.symm.trans hm) (Bool.false_ne_true ∘ Eq.symm)

theorem boost (h : Settles config m o known {g}) (hcfg : o.cfg = o.decoding)
    (hgm : g.state.marked = false) (hgb : g.state.boosted = false) (hcall : g'.call = g.call)
    (hmarked : g'.state.marked = false) (hboosted : g'.state.boosted = true)
    (hboosts : config.boosts m g.call.vocabulary) :
    Settles config m (o.boosted (config.expandedTerms g.call.vocabulary) true) known {g'} := by
  cases h with
  | quiet _ hd hknown =>
      have htree : o.cfg.boostingTree.isSome = true := by
        rw [hcfg, hd, isSome_current]
        exact hboosts.2
      have happlied : o.boosted (config.expandedTerms g.call.vocabulary) true =
          o.applied (o.cfg.boost (config.expandedTerms g.call.vocabulary)) := by
        simp [NemoModel.boosted, htree]
      rw [happlied]
      refine .boosted g' rfl hmarked hboosted (hcall ▸ hboosts) ?_ hknown
      rw [NemoModel.applied, hcfg, hd, hcall]
  | marked g₀ hholders hm _ _ _ =>
      obtain rfl := Multiset.singleton_inj.mp hholders
      exact absurd (hgm.symm.trans hm) Bool.false_ne_true
  | boosted g₀ hholders _ hb _ _ _ =>
      obtain rfl := Multiset.singleton_inj.mp hholders
      exact absurd (hgb.symm.trans hb) Bool.false_ne_true

theorem reset (h : Settles config m o known (g ::ₘ rest)) (hcfg : o.cfg = o.decoding)
    (hg : g.state.boosted = true)
    (hresets : config.boosts m g.call.vocabulary → (config.base m).Resets)
    (hmarked : g'.state.marked = false) (hboosted : g'.state.boosted = false) :
    Settles config m (o.unboosted true) known (g' ::ₘ rest) := by
  cases h with
  | quiet hholders _ _ =>
      have hb := (hholders g (Multiset.mem_cons_self g rest)).1
      exact absurd (hb.symm.trans hg) Bool.false_ne_true
  | marked g₀ hholders _ hb _ _ =>
      obtain ⟨rfl, rfl⟩ := (Multiset.singleton_eq_cons_iff _).mp hholders.symm
      exact absurd (hb.symm.trans hg) Bool.false_ne_true
  | boosted g₀ hholders _ _ hboosts hd hknown =>
      obtain ⟨rfl, rfl⟩ := (Multiset.singleton_eq_cons_iff _).mp hholders.symm
      have hreset := resets_current (hresets hboosts) o.confidence
      refine .quiet ?_ ?_ hknown
      · intro g₁ hg₁
        obtain rfl := Multiset.mem_singleton.mp hg₁
        exact ⟨hboosted, fun hm => absurd (hmarked.symm.trans hm) Bool.false_ne_true⟩
      · simp only [NemoModel.unboosted, if_true, NemoModel.applied, hcfg, hd, reset_boost]
        exact hreset

/-- A new holder finds the object settled. -/
theorem acquire (h : Settles config m o known rest) (hconfidence : known → o.confidence = true)
    (hkey : o.decoding.keyPhrases = (config.fresh m).keyPhrases)
    (hresets : ∀ g₀ ∈ rest, config.boosts m g₀.call.vocabulary → (config.base m).Resets)
    (hmarked : g.state.marked = false) (hboosted : g.state.boosted = false) :
    Settles config m o known (g ::ₘ rest) ∧ o.decoding = current config m o.confidence := by
  have hg : g.state.boosted = false ∧ (g.state.marked = true → o.confidence = true) :=
    ⟨hboosted, fun hm => absurd (hmarked.symm.trans hm) Bool.false_ne_true⟩
  cases h with
  | quiet hholders hd hknown =>
      exact ⟨.quiet (Multiset.forall_mem_cons.mpr ⟨hg, hholders⟩) hd hknown, hd⟩
  | marked g₀ hholders _ hb hd hknown =>
      refine ⟨.quiet (Multiset.forall_mem_cons.mpr ⟨hg, ?_⟩) hd hconfidence, hd⟩
      intro g₁ hg₁
      obtain rfl := Multiset.mem_singleton.mp (hholders ▸ hg₁)
      exact ⟨hb, fun _ => hconfidence hknown⟩
  | boosted g₀ hholders _ _ hboosts hd _ =>
      have hbase := hresets g₀ (hholders ▸ Multiset.mem_singleton_self g₀) hboosts
      have hnone := keyPhrases_fresh hbase
      rw [hd, keyPhrases_boost (by rw [isSome_current]; exact hboosts.2), hnone] at hkey
      cases hkey

/-- The object that a holder releases is settled. -/
theorem release (h : Settles config m o known (g ::ₘ rest)) (hmarked : g.state.marked = false)
    (hboosted : g.state.boosted = false) :
    Settles config m o known rest ∧ o.decoding = current config m o.confidence := by
  cases h with
  | quiet hholders hd hknown =>
      exact ⟨.quiet (Multiset.forall_mem_cons.mp hholders).2 hd hknown, hd⟩
  | marked g₀ hholders hm _ _ _ =>
      obtain ⟨rfl, rfl⟩ := (Multiset.singleton_eq_cons_iff _).mp hholders.symm
      exact absurd (hmarked.symm.trans hm) Bool.false_ne_true
  | boosted g₀ hholders _ hb _ _ _ =>
      obtain ⟨rfl, rfl⟩ := (Multiset.singleton_eq_cons_iff _).mp hholders.symm
      exact absurd (hboosted.symm.trans hb) Bool.false_ne_true

/-- The configuration under a holder that is not setting the object up. -/
theorem decoding_of_mem (h : Settles config m o known rest) (hg : g ∈ rest)
    (hmarked : g.state.marked = false)
    (hboosted : g.state.boosted = decide (config.boosts m g.call.vocabulary))
    (hconfidence : config.confidence = true → o.confidence = true ∨
      (config.fresh m).preserveWordConfidence = true) :
    o.decoding = config.inForce m g.call.vocabulary := by
  have hcurrent := current_eq_base hconfidence
  cases h with
  | quiet hholders hd _ =>
      have hnot : ¬ config.boosts m g.call.vocabulary :=
        of_decide_eq_false (hboosted.symm.trans (hholders g hg).1)
      rw [hd, hcurrent, Config.inForce, if_neg hnot]
  | marked g₀ hholders hm _ _ _ =>
      obtain rfl := Multiset.mem_singleton.mp (hholders ▸ hg)
      exact absurd (hmarked.symm.trans hm) Bool.false_ne_true
  | boosted g₀ hholders _ _ hboosts hd _ =>
      obtain rfl := Multiset.mem_singleton.mp (hholders ▸ hg)
      rw [hd, hcurrent, Config.inForce, if_pos hboosts]

end Settles

end Settled

end Dalston.Engines.Nemo
