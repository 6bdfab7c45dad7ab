import Mathlib

/-!
# Orders by precedence

Nodes that depend on each other are put in an order by taking, one after the other, a node that
depends on taken nodes only. Where no node depends on itself through others, such an order leaves
no node out.

## Implementation notes

The frontier holds the nodes that can be taken next. How a program finds the new members of its
frontier, and which member it takes, is left to the program.
-/

namespace Dalston.Foundation

variable {α : Type} {dep : α → α → Prop} {nodes : List α}

/-- No node depends on itself, directly or through others. -/
def Acyclic (dep : α → α → Prop) (nodes : List α) : Prop :=
  ∀ a, ¬ Relation.TransGen (fun a b => a ∈ nodes ∧ b ∈ nodes ∧ dep a b) a a

/-- Among the nodes with a property there is one that depends on none of them. -/
theorem Acyclic.exists_minimal (h : Acyclic dep nodes) {P : α → Prop}
    (hP : ∃ a ∈ nodes, P a) : ∃ a ∈ nodes, P a ∧ ∀ b ∈ nodes, dep a b → ¬ P b := by
  let R : {a // a ∈ nodes} → {a // a ∈ nodes} → Prop :=
    Relation.TransGen fun b a => dep a.1 b.1
  have hlift : ∀ a b : {a // a ∈ nodes}, R b a →
      Relation.TransGen (fun a b => a ∈ nodes ∧ b ∈ nodes ∧ dep a b) a.1 b.1 := by
    intro a b hab
    induction hab with
    | single hdep => exact .single ⟨Subtype.prop _, b.2, hdep⟩
    | tail _ hdep ih => exact .head ⟨Subtype.prop _, Subtype.prop _, hdep⟩ ih
  have : Finite {a // a ∈ nodes} := (List.finite_toSet nodes).to_subtype
  have : IsTrans _ R := ⟨fun _ _ _ => Relation.TransGen.trans⟩
  have : Std.Irrefl R := ⟨fun a hab => h a.1 (hlift a a hab)⟩
  have hwf : WellFounded R := Finite.wellFounded_of_trans_of_irrefl R
  obtain ⟨a, ha, hPa⟩ := hP
  obtain ⟨m, hPm, hmin⟩ := hwf.has_min {a | P a.1} ⟨⟨a, ha⟩, hPa⟩
  refine ⟨m.1, m.2, hPm, fun b hb hdep hPb => ?_⟩
  exact hmin ⟨b, hb⟩ hPb (.single hdep)

/-- The nodes that have been taken, in order, and the frontier of those that can be taken next. -/
structure Taken (dep : α → α → Prop) (nodes frontier taken : List α) : Prop where
  nodup : (frontier ++ taken).Nodup
  mem_iff : ∀ a ∈ nodes,
    a ∈ frontier ++ taken ↔ ∀ b ∈ nodes, dep a b → b ∈ taken
  subset : frontier ++ taken ⊆ nodes
  ordered : taken.Pairwise fun a b => ¬ dep a b

namespace Taken

variable {frontier taken : List α} {c : α}

/-- At first the frontier holds the nodes that depend on none. -/
theorem start (hnodup : frontier.Nodup)
    (hmem : ∀ a, a ∈ frontier ↔ a ∈ nodes ∧ ∀ b ∈ nodes, ¬ dep a b) :
    Taken dep nodes frontier [] where
  nodup := by simpa using hnodup
  mem_iff a ha := by simp [hmem, ha]
  subset a ha := ((hmem a).mp (by simpa using ha)).1
  ordered := List.Pairwise.nil

/-- A node of the frontier is taken, and the nodes that it was the last to hold back join. -/
theorem take {frontier' joined : List α} (h : Taken dep nodes (c :: frontier) taken)
    (hjoined : joined.Nodup)
    (hmem : ∀ a, a ∈ joined ↔
      a ∈ nodes ∧ dep a c ∧ ∀ b ∈ nodes, dep a b → b ∈ taken ∨ b = c)
    (hperm : frontier'.Perm (frontier ++ joined)) :
    Taken dep nodes frontier' (taken ++ [c]) := by
  have hc : c ∈ nodes := h.subset (by simp)
  obtain ⟨hcnew, hnodup⟩ := List.nodup_cons.mp h.nodup
  have hcfresh : c ∉ taken := fun hmem => hcnew (List.mem_append_right _ hmem)
  have hfree : ∀ a ∈ (c :: frontier) ++ taken, ¬ dep a c := by
    intro a ha hdep
    exact hcfresh ((h.mem_iff a (h.subset ha)).mp ha c hc hdep)
  have hmem' : ∀ a, a ∈ frontier' ++ (taken ++ [c]) ↔
      a ∈ (c :: frontier) ++ taken ∨ a ∈ joined := by
    intro a
    simp only [List.mem_append, hperm.mem_iff, List.mem_cons, List.not_mem_nil, or_false]
    tauto
  constructor
  · have hdisjoint : ∀ a ∈ (c :: frontier) ++ taken, a ∉ joined := fun a ha hj =>
      hfree a ha ((hmem a).mp hj).2.1
    have hall : (((c :: frontier) ++ taken) ++ joined).Nodup :=
      List.nodup_append.mpr ⟨h.nodup, hjoined, fun a ha b hb hab =>
        hdisjoint a ha (hab ▸ hb)⟩
    refine (List.Perm.nodup_iff ?_).mp hall
    refine List.Perm.trans ?_ (hperm.symm.append_right _)
    rw [← Multiset.coe_eq_coe]
    simp only [← Multiset.coe_add, ← Multiset.cons_coe, ← Multiset.singleton_add,
      Multiset.coe_nil, add_zero]
    abel
  · intro a ha
    rw [hmem', h.mem_iff a ha, hmem]
    constructor
    · rintro (hold | ⟨-, -, hnew⟩) b hb hdep
      · exact List.mem_append_left _ (hold b hb hdep)
      · simpa using hnew b hb hdep
    · intro hnew
      by_cases hdep : dep a c
      · exact Or.inr ⟨ha, hdep, fun b hb hab => by simpa using hnew b hb hab⟩
      · refine Or.inl fun b hb hab => ?_
        have hb' : b ∈ taken ∨ b = c := by simpa using hnew b hb hab
        rcases hb' with hb' | rfl
        · exact hb'
        · exact absurd hab hdep
  · intro a ha
    rcases (hmem' a).mp ha with ha | ha
    · exact h.subset ha
    · exact ((hmem a).mp ha).1
  · refine List.pairwise_append.mpr ⟨h.ordered, List.pairwise_singleton _ _, ?_⟩
    intro a ha b hb
    rw [List.mem_singleton.mp hb]
    exact hfree a (List.mem_append_right _ ha)

/-- When no node can be taken, all are. -/
theorem complete (h : Taken dep nodes [] taken) (hnodes : nodes.Nodup)
    (hacyclic : Acyclic dep nodes) : taken.Perm nodes := by
  refine (List.perm_ext_iff_of_nodup h.nodup hnodes).mpr fun a => ⟨fun ha => h.subset ha, ?_⟩
  intro ha
  by_contra hleft
  obtain ⟨m, hm, hmleft, hmin⟩ :=
    hacyclic.exists_minimal (P := fun a => a ∉ taken) ⟨a, ha, hleft⟩
  refine hmleft ((h.mem_iff m hm).mpr fun b hb hdep => ?_)
  exact not_not.mp (hmin b hb hdep)

end Taken

end Dalston.Foundation
