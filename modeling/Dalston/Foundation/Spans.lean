import Mathlib

/-!
# Spans of a line

A piece of a line has a first and a last point. A list of pieces covers the points
within its pieces, and it tiles a span when each piece begins where the one before
it has ended. One pass over a list may also join each piece to the last piece kept.
-/

namespace Dalston.Foundation

section Covers

variable {A P : Type} [LE A] {start stop : P → A}

/-- A piece of the list contains the point. -/
def Covers (start stop : P → A) (pieces : List P) (x : A) : Prop :=
  ∃ p ∈ pieces, start p ≤ x ∧ x ≤ stop p

@[simp] theorem not_covers_nil (x : A) : ¬ Covers start stop [] x := by
  simp [Covers]

@[simp] theorem covers_cons {p : P} {pieces : List P} {x : A} :
    Covers start stop (p :: pieces) x ↔
      (start p ≤ x ∧ x ≤ stop p) ∨ Covers start stop pieces x := by
  simp [Covers]

theorem Covers.perm {pieces pieces' : List P} {x : A} (h : Covers start stop pieces x)
    (hperm : pieces.Perm pieces') : Covers start stop pieces' x := by
  obtain ⟨p, hp, hx⟩ := h
  exact ⟨p, hperm.mem_iff.mp hp, hx⟩

end Covers

section Tiles

variable {A P : Type} [LinearOrder A] {start stop : P → A} {a b : A}

/-- Each piece begins where the one before it has ended, from one point to another. -/
def Tiles (start stop : P → A) : A → A → List P → Prop
  | a, b, [] => a = b
  | a, b, p :: rest => start p = a ∧ a < stop p ∧ Tiles start stop (stop p) b rest

theorem Tiles.le {pieces : List P} (h : Tiles start stop a b pieces) : a ≤ b := by
  induction pieces generalizing a with
  | nil => exact le_of_eq h
  | cons p rest ih => exact h.2.1.le.trans (ih h.2.2)

/-- A piece lies between the two ends and has a positive length. -/
theorem Tiles.within {pieces : List P} (h : Tiles start stop a b pieces) {p : P}
    (hp : p ∈ pieces) : a ≤ start p ∧ start p < stop p ∧ stop p ≤ b := by
  induction pieces generalizing a with
  | nil => cases hp
  | cons q rest ih =>
      obtain ⟨rfl, hlt, hrest⟩ := h
      rcases List.mem_cons.mp hp with rfl | hp
      · exact ⟨le_rfl, hlt, hrest.le⟩
      · obtain ⟨hstart, hlen, hstop⟩ := ih hrest hp
        exact ⟨hlt.le.trans hstart, hlen, hstop⟩

/-- The pieces are disjoint and in order. -/
theorem Tiles.ordered {pieces : List P} (h : Tiles start stop a b pieces) :
    pieces.Pairwise fun p q => stop p ≤ start q := by
  induction pieces generalizing a with
  | nil => exact List.Pairwise.nil
  | cons p rest ih =>
      exact List.Pairwise.cons (fun q hq => (h.2.2.within hq).1) (ih h.2.2)

theorem Tiles.ne_nil {pieces : List P} (h : Tiles start stop a b pieces) (hlt : a < b) :
    pieces ≠ [] := by
  rintro rfl
  exact hlt.ne h

/-- The images of the ends of the pieces leave no gap between the images of the two ends. -/
theorem Tiles.covers_image {B : Type} [LinearOrder B] {f : A → B} {pieces : List P}
    (h : Tiles start stop a b pieces) {y : B} (ha : f a ≤ y) (hb : y < f b) :
    ∃ p ∈ pieces, f (start p) ≤ y ∧ y < f (stop p) := by
  induction pieces generalizing a with
  | nil => exact absurd (ha.trans_lt hb) (by rw [show a = b from h]; exact lt_irrefl _)
  | cons p rest ih =>
      obtain ⟨rfl, -, hrest⟩ := h
      rcases lt_or_ge y (f (stop p)) with hy | hy
      · exact ⟨p, List.mem_cons_self, ha, hy⟩
      · obtain ⟨q, hq, hqy⟩ := ih hrest hy
        exact ⟨q, List.mem_cons_of_mem _ hq, hqy⟩

/-- No point is lost between two pieces. -/
theorem Tiles.covers {pieces : List P} (h : Tiles start stop a b pieces) {x : A} (ha : a ≤ x)
    (hb : x < b) : ∃ p ∈ pieces, start p ≤ x ∧ x < stop p :=
  h.covers_image (f := id) ha hb

/-- Each piece begins at the end of the one before it. -/
theorem Tiles.isChain {pieces : List P} (h : Tiles start stop a b pieces) :
    pieces.IsChain fun p q => stop p = start q := by
  induction pieces generalizing a with
  | nil => exact List.IsChain.nil
  | cons p rest ih =>
      cases rest with
      | nil => exact List.IsChain.singleton _
      | cons q rest => exact List.IsChain.cons_cons h.2.2.1.symm (ih h.2.2)

/-- The pieces of an image have the ends of their originals. -/
theorem tiles_map {Q : Type} {start' stop' : Q → A} {f : P → Q} {pieces : List P} :
    Tiles start' stop' a b (pieces.map f) ↔
      Tiles (fun p => start' (f p)) (fun p => stop' (f p)) a b pieces := by
  induction pieces generalizing a with
  | nil => rfl
  | cons p rest ih => simp only [List.map_cons, Tiles, ih]

/-- The consecutive points of an increasing list bound the pieces of a tiling. -/
theorem tiles_zip_tail {points : List A} (h : points.Pairwise (· < ·)) (hne : points ≠ []) :
    Tiles Prod.fst Prod.snd (points.head hne) (points.getLast hne)
      (points.zip points.tail) := by
  induction points with
  | nil => exact absurd rfl hne
  | cons x rest ih =>
      cases rest with
      | nil => rfl
      | cons y rest =>
          obtain ⟨hx, hrest⟩ := List.pairwise_cons.mp h
          exact ⟨rfl, hx y List.mem_cons_self, ih hrest (by simp)⟩

/-- No point of an increasing list lies between two consecutive ones. -/
theorem beside_of_mem_zip_tail {points : List A} (h : points.Pairwise (· < ·)) {x y z : A}
    (hxy : (x, y) ∈ points.zip points.tail) (hz : z ∈ points) : z ≤ x ∨ y ≤ z := by
  induction points with
  | nil => cases hz
  | cons w rest ih =>
      cases rest with
      | nil => simp at hxy
      | cons v rest =>
          obtain ⟨hw, hrest⟩ := List.pairwise_cons.mp h
          rcases List.mem_cons.mp hxy with heq | hxy
          · obtain ⟨rfl, rfl⟩ := Prod.mk.inj heq
            rcases List.mem_cons.mp hz with rfl | hz
            · exact Or.inl le_rfl
            · rcases List.mem_cons.mp hz with rfl | hz
              · exact Or.inr le_rfl
              · exact Or.inr ((List.pairwise_cons.mp hrest).1 z hz).le
          · have hxy' : (x, y) ∈ (v :: rest).zip rest := hxy
            rcases List.mem_cons.mp hz with rfl | hz
            · exact Or.inl (hw x (List.of_mem_zip hxy').1).le
            · exact ih hrest hxy' hz

end Tiles

section Gaps

variable {A : Type} [LinearOrder A] {covered covered' : A → Prop} {a b : A} {g : A × A}

/-- A maximal piece of a span with no covered point between its ends. -/
structure Gap (covered : A → Prop) (a b : A) (g : A × A) : Prop where
  lt : g.1 < g.2
  left : a ≤ g.1
  right : g.2 ≤ b
  free : ∀ x, g.1 < x → x < g.2 → ¬ covered x
  maximal : ∀ x y, a ≤ x → x ≤ g.1 → g.2 ≤ y → y ≤ b →
    (∀ z, x < z → z < y → ¬ covered z) → x = g.1 ∧ y = g.2

/-- The points at the ends of the span and beyond do not matter. -/
theorem Gap.congr (h : ∀ x, a < x → x < b → (covered x ↔ covered' x)) (hgap : Gap covered a b g) :
    Gap covered' a b g := by
  refine ⟨hgap.lt, hgap.left, hgap.right, ?_, ?_⟩
  · intro x hx hx'
    rw [← h x (hgap.left.trans_lt hx) (hx'.trans_le hgap.right)]
    exact hgap.free x hx hx'
  · intro x y hax hx hy hyb hfree
    refine hgap.maximal x y hax hx hy hyb fun z hz hz' => ?_
    rw [h z (hax.trans_lt hz) (hz'.trans_le hyb)]
    exact hfree z hz hz'

theorem gap_congr (h : ∀ x, a < x → x < b → (covered x ↔ covered' x)) :
    Gap covered a b g ↔ Gap covered' a b g :=
  ⟨Gap.congr h, Gap.congr fun x hx hx' => (h x hx hx').symm⟩

/-- A span without covered points is its own gap. -/
theorem gap_of_free (h : ∀ x, a < x → x < b → ¬ covered x) :
    Gap covered a b g ↔ a < b ∧ g = (a, b) := by
  constructor
  · intro hgap
    obtain ⟨hleft, hright⟩ := hgap.maximal a b le_rfl hgap.left hgap.right le_rfl h
    exact ⟨hleft ▸ hright ▸ hgap.lt, Prod.ext hleft.symm hright.symm⟩
  · rintro ⟨hlt, rfl⟩
    exact ⟨hlt, le_rfl, le_rfl, h, fun x y hax hx hy hyb _ =>
      ⟨le_antisymm hx hax, le_antisymm hyb hy⟩⟩

/-- The gaps up to a covered piece and after it. -/
theorem gap_cons_iff [DenselyOrdered A] {start stop : A} (hpiece : start ≤ stop) (ha : a < stop)
    (hb : start < b) (hcovered : ∀ x, start ≤ x → x ≤ stop → covered x)
    (hafter : ∀ x, x < start → ¬ covered x) :
    Gap covered a b g ↔ (a < start ∧ g = (a, start)) ∨ Gap covered stop b g := by
  constructor
  · intro hgap
    rcases le_or_gt stop g.1 with hstop | hstop
    · right
      exact ⟨hgap.lt, hstop, hgap.right, hgap.free, fun x y hx => hgap.maximal x y (ha.le.trans hx)⟩
    · left
      have hright : g.2 ≤ stop := by
        by_contra hlt
        exact hgap.free stop hstop (not_le.mp hlt) (hcovered stop hpiece le_rfl)
      have hstart : g.2 ≤ start := by
        by_contra hlt
        obtain ⟨z, hz, hz'⟩ := exists_between (max_lt hgap.lt (not_le.mp hlt))
        exact hgap.free z ((le_max_left _ _).trans_lt hz) hz'
          (hcovered z ((le_max_right _ _).trans hz.le) (hz'.le.trans hright))
      obtain ⟨heq, heq'⟩ := hgap.maximal a start le_rfl hgap.left hstart hb.le
        fun z _ hz => hafter z hz
      exact ⟨heq ▸ heq' ▸ hgap.lt, Prod.ext heq.symm heq'.symm⟩
  · rintro (⟨hlt, rfl⟩ | hgap)
    · refine ⟨hlt, le_rfl, hb.le, fun x _ hx => hafter x hx, fun x y hax hx hy hyb hfree => ?_⟩
      refine ⟨le_antisymm hx hax, le_antisymm ?_ hy⟩
      by_contra hlt'
      exact hfree start (hx.trans_lt hlt) (not_le.mp hlt') (hcovered start le_rfl hpiece)
    · refine ⟨hgap.lt, ha.le.trans hgap.left, hgap.right, hgap.free, ?_⟩
      intro x y _ hx hy hyb hfree
      refine hgap.maximal x y ?_ hx hy hyb hfree
      by_contra hlt
      exact hfree stop (not_le.mp hlt) (hgap.left.trans_lt (hgap.lt.trans_le hy))
        (hcovered stop hpiece le_rfl)

end Gaps

section Coalesce

variable {P : Type} {joins : P → P → Bool} {join : P → P → P}

/-- Join each piece to the last one kept, or keep it as well. -/
def coalesceFrom (joins : P → P → Bool) (join : P → P → P) : P → List P → List P
  | last, [] => [last]
  | last, p :: rest =>
      if joins last p then coalesceFrom joins join (join last p) rest
      else last :: coalesceFrom joins join p rest

def coalesce (joins : P → P → Bool) (join : P → P → P) : List P → List P
  | [] => []
  | p :: rest => coalesceFrom joins join p rest

/-- The induction over a pass: what the kept piece and the rest of the list satisfy. -/
theorem coalesce_induction (joins : P → P → Bool) (join : P → P → P)
    {M : P → List P → List P → Prop} (single : ∀ last, M last [] [last])
    (joined : ∀ last p rest kept, joins last p = true → M (join last p) rest kept →
      M last (p :: rest) kept)
    (kept : ∀ last p rest kept, joins last p = false → M p rest kept →
      M last (p :: rest) (last :: kept)) (last : P) (rest : List P) :
    M last rest (coalesceFrom joins join last rest) := by
  induction rest generalizing last with
  | nil => exact single last
  | cons p rest ih =>
      by_cases h : joins last p = true
      · rw [coalesceFrom, if_pos h]
        exact joined last p rest _ h (ih _)
      · rw [coalesceFrom, if_neg h]
        exact kept last p rest _ (by simpa using h) (ih p)

/-- What every piece has and a join of two pieces in a row keeps, every kept piece has. -/
theorem coalesce_all_of_chain {K : P → Prop} {R : P → P → Prop} {pieces : List P}
    (h : ∀ p ∈ pieces, K p) (hchain : pieces.IsChain R)
    (hjoin : ∀ p q r, R p q → R q r → R (join p q) r)
    (keep : ∀ p q, K p → K q → R p q → joins p q = true → K (join p q)) :
    ∀ p ∈ coalesce joins join pieces, K p := by
  cases pieces with
  | nil => exact h
  | cons last rest =>
      refine coalesce_induction joins join
        (M := fun last rest kept => (∀ p ∈ last :: rest, K p) → (last :: rest).IsChain R →
          ∀ p ∈ kept, K p) ?_ ?_ ?_ last rest h hchain
      · exact fun _ h _ => h
      · intro last p rest kept hjoined ih hall hrow
        rw [List.isChain_cons_cons] at hrow
        refine ih ?_ ?_
        · intro q hq
          rcases List.mem_cons.mp hq with rfl | hq
          · exact keep last p (hall last (by simp)) (hall p (by simp)) hrow.1 hjoined
          · exact hall q (by simp [hq])
        · cases rest with
          | nil => exact List.IsChain.singleton _
          | cons r rest =>
              rw [List.isChain_cons_cons] at hrow ⊢
              exact ⟨hjoin _ _ _ hrow.1 hrow.2.1, hrow.2.2⟩
      · intro last p rest kept _ ih hall hrow q hq
        rw [List.isChain_cons_cons] at hrow
        rcases List.mem_cons.mp hq with rfl | hq
        · exact hall q (by simp)
        · exact ih (fun r hr => hall r (List.mem_cons_of_mem _ hr)) hrow.2 q hq

/-- What every piece has and a join keeps, every kept piece has. -/
theorem coalesce_all {K : P → Prop} {pieces : List P} (h : ∀ p ∈ pieces, K p)
    (keep : ∀ p q, K p → K q → joins p q = true → K (join p q)) :
    ∀ p ∈ coalesce joins join pieces, K p :=
  coalesce_all_of_chain (R := fun _ _ => True) h
    (List.Pairwise.isChain (List.pairwise_of_forall fun _ _ => trivial))
    (fun _ _ _ _ _ => trivial) fun p q hp hq _ hjoined => keep p q hp hq hjoined

/-- What a join leaves of its first piece is a value of some piece, in the order of the list. -/
theorem coalesce_sublist {B : Type} {f : P → B} (hf : ∀ p q, f (join p q) = f p)
    (pieces : List P) : ((coalesce joins join pieces).map f).Sublist (pieces.map f) := by
  cases pieces with
  | nil => exact List.Sublist.refl _
  | cons last rest =>
      refine coalesce_induction joins join
        (M := fun last rest kept => (kept.map f).Sublist ((last :: rest).map f))
        ?_ ?_ ?_ last rest
      · intro last
        exact List.Sublist.refl _
      · intro last p rest kept _ ih
        refine ih.trans ?_
        simp only [List.map_cons, hf]
        exact (List.sublist_cons_self _ _).cons_cons _
      · intro last p rest kept _ ih
        exact ih.cons_cons _

/-- Two kept pieces that follow each other do not join. -/
theorem coalesce_chain (hright : ∀ p q r, joins p (join q r) = joins p q) (pieces : List P) :
    (coalesce joins join pieces).IsChain fun p q => joins p q = false := by
  cases pieces with
  | nil => exact List.IsChain.nil
  | cons last rest =>
      refine (coalesce_induction joins join
        (M := fun last rest kept => kept.IsChain (fun p q => joins p q = false) ∧
          ∃ q ∈ kept.head?, ∀ p, joins p q = joins p last) ?_ ?_ ?_ last rest).1
      · intro last
        exact ⟨List.IsChain.singleton _, last, rfl, fun _ => rfl⟩
      · rintro last p rest kept _ ⟨hchain, q, hq, hsame⟩
        exact ⟨hchain, q, hq, fun r => (hsame r).trans (hright r last p)⟩
      · rintro last p rest kept hapart ⟨hchain, q, hq, hsame⟩
        refine ⟨?_, last, rfl, fun _ => rfl⟩
        cases kept with
        | nil => exact List.IsChain.singleton _
        | cons r kept =>
            have hr : r = q := by simpa using hq
            refine List.IsChain.cons_cons ?_ hchain
            rw [hr, hsame]
            exact hapart

section Lines

variable {A : Type} [LinearOrder A] {start stop : P → A} {a b : A}

/-- A pass over pieces in the order of their starts, whose joins reach as far as both of
their pieces, keeps each piece within a kept one. -/
theorem coalesce_reaches (hstart : ∀ p q, start (join p q) = start p)
    (hstop : ∀ p q, stop (join p q) = max (stop p) (stop q)) {pieces : List P}
    (hsorted : pieces.Pairwise fun p q => start p ≤ start q) :
    ∀ p ∈ pieces, ∃ k ∈ coalesce joins join pieces, start k ≤ start p ∧ stop p ≤ stop k := by
  cases pieces with
  | nil => simp
  | cons last rest =>
      refine coalesce_induction joins join
        (M := fun last rest kept => (last :: rest).Pairwise (fun p q => start p ≤ start q) →
          ∀ p ∈ last :: rest, ∃ k ∈ kept, start k ≤ start p ∧ stop p ≤ stop k)
        ?_ ?_ ?_ last rest hsorted
      · exact fun _ _ p hp => ⟨p, hp, le_rfl, le_rfl⟩
      · intro last p rest kept _ ih hrow
        obtain ⟨hlast, hrow⟩ := List.pairwise_cons.mp hrow
        obtain ⟨-, hrest⟩ := List.pairwise_cons.mp hrow
        have hjoined := List.forall_mem_cons.mp (ih (List.pairwise_cons.mpr ⟨fun q hq => by
          rw [hstart]
          exact hlast q (List.mem_cons_of_mem _ hq), hrest⟩))
        obtain ⟨⟨k, hk, hkstart, hkstop⟩, hlater⟩ := hjoined
        rw [hstart] at hkstart
        rw [hstop, max_le_iff] at hkstop
        refine List.forall_mem_cons.mpr ⟨⟨k, hk, hkstart, hkstop.1⟩,
          List.forall_mem_cons.mpr ⟨⟨k, hk, ?_, hkstop.2⟩, hlater⟩⟩
        exact hkstart.trans (hlast p List.mem_cons_self)
      · intro last p rest kept _ ih hrow
        refine List.forall_mem_cons.mpr ⟨⟨last, List.mem_cons_self, le_rfl, le_rfl⟩, ?_⟩
        intro q hq
        obtain ⟨k, hk, hreach⟩ := ih (List.pairwise_cons.mp hrow).2 q hq
        exact ⟨k, List.mem_cons_of_mem _ hk, hreach⟩

/-- So no point is lost. -/
theorem coalesce_covers (hstart : ∀ p q, start (join p q) = start p)
    (hstop : ∀ p q, stop (join p q) = max (stop p) (stop q)) {pieces : List P}
    (hsorted : pieces.Pairwise fun p q => start p ≤ start q) {x : A}
    (h : Covers start stop pieces x) : Covers start stop (coalesce joins join pieces) x := by
  obtain ⟨p, hp, hx, hx'⟩ := h
  obtain ⟨k, hk, hkstart, hkstop⟩ := coalesce_reaches hstart hstop hsorted p hp
  exact ⟨k, hk, hkstart.trans hx, hx'.trans hkstop⟩

/-- Pieces in the order of their starts, each apart from the next one, are all apart. -/
theorem pairwise_apart {pieces : List P} (hchain : pieces.IsChain fun p q => stop p < start q)
    (hsorted : pieces.Pairwise fun p q => start p ≤ start q) :
    pieces.Pairwise fun p q => stop p < start q := by
  induction pieces with
  | nil => exact List.Pairwise.nil
  | cons p rest ih =>
      obtain ⟨-, hrest⟩ := List.pairwise_cons.mp hsorted
      cases rest with
      | nil => exact List.pairwise_singleton _ _
      | cons q rest =>
          obtain ⟨hpq, hchain⟩ := List.isChain_cons_cons.mp hchain
          refine List.pairwise_cons.mpr ⟨List.forall_mem_cons.mpr ⟨hpq, fun r hr => ?_⟩,
            ih hchain hrest⟩
          exact hpq.trans_le ((List.pairwise_cons.mp hrest).1 r hr)

/-- A pass that joins pieces which meet covers nothing new. -/
theorem covers_of_coalesce (hstart : ∀ p q, start (join p q) = start p)
    (hstop : ∀ p q, stop (join p q) = max (stop p) (stop q))
    (hmeet : ∀ p q, joins p q = true → start q ≤ stop p) {pieces : List P} {x : A}
    (h : Covers start stop (coalesce joins join pieces) x) : Covers start stop pieces x := by
  cases pieces with
  | nil => exact h
  | cons last rest =>
      refine coalesce_induction joins join
        (M := fun last rest kept => Covers start stop kept x → Covers start stop (last :: rest) x)
        ?_ ?_ ?_ last rest h
      · exact fun _ h => h
      · intro last p rest kept hjoined ih hcover
        rw [covers_cons, covers_cons, ← or_assoc]
        refine (covers_cons.mp (ih hcover)).imp_left fun hx => ?_
        rw [hstart, hstop, le_max_iff] at hx
        rcases le_or_gt x (stop last) with hle | hgt
        · exact Or.inl ⟨hx.1, hle⟩
        · exact Or.inr ⟨(hmeet last p hjoined).trans hgt.le,
            hx.2.resolve_left (not_le.mpr hgt)⟩
      · intro last p rest kept _ ih hcover
        rw [covers_cons]
        exact (covers_cons.mp hcover).imp_right ih

/-- A pass over pieces in the order of their starts, which joins the pieces that meet or
touch, covers the same points without the last point of each piece. -/
theorem coalesce_covers_iff (hstart : ∀ p q, start (join p q) = start p)
    (hstop : ∀ p q, stop (join p q) = max (stop p) (stop q))
    (hmeet : ∀ p q, joins p q = true → start q ≤ stop p) {pieces : List P}
    (hsorted : pieces.Pairwise fun p q => start p ≤ start q) (x : A) :
    (∃ k ∈ coalesce joins join pieces, start k ≤ x ∧ x < stop k) ↔
      ∃ p ∈ pieces, start p ≤ x ∧ x < stop p := by
  cases pieces with
  | nil => rfl
  | cons last rest =>
      refine coalesce_induction joins join
        (M := fun last rest kept => (last :: rest).Pairwise (fun p q => start p ≤ start q) →
          ((∃ k ∈ kept, start k ≤ x ∧ x < stop k) ↔
            ∃ p ∈ last :: rest, start p ≤ x ∧ x < stop p)) ?_ ?_ ?_ last rest hsorted
      · exact fun _ _ => Iff.rfl
      · intro last p rest kept hjoined ih hrow
        obtain ⟨hlast, hrow⟩ := List.pairwise_cons.mp hrow
        have hp : start last ≤ start p := hlast p List.mem_cons_self
        have hjoin := hmeet last p hjoined
        rw [ih (List.pairwise_cons.mpr ⟨fun q hq => by
          rw [hstart]
          exact hlast q (List.mem_cons_of_mem _ hq), (List.pairwise_cons.mp hrow).2⟩)]
        simp only [List.exists_mem_cons_iff, hstart, hstop, lt_max_iff, ← or_assoc]
        refine or_congr_left ⟨?_, ?_⟩
        · rintro ⟨hx, hx' | hx'⟩
          · exact Or.inl ⟨hx, hx'⟩
          · rcases lt_or_ge x (stop last) with hlt | hge
            · exact Or.inl ⟨hx, hlt⟩
            · exact Or.inr ⟨hjoin.trans hge, hx'⟩
        · rintro (⟨hx, hx'⟩ | ⟨hx, hx'⟩)
          · exact ⟨hx, Or.inl hx'⟩
          · exact ⟨hp.trans hx, Or.inr hx'⟩
      · intro last p rest kept _ ih hrow
        simp only [List.exists_mem_cons_iff] at ih ⊢
        rw [ih (List.pairwise_cons.mp hrow).2]

/-- A pass over disjoint pieces in order, whose joins run from the first start to the second
stop, keeps them disjoint and in order. -/
theorem coalesce_ordered (hstart : ∀ p q, start (join p q) = start p)
    (hstop : ∀ p q, stop (join p q) = stop q) {pieces : List P}
    (hordered : pieces.Pairwise fun p q => stop p ≤ start q) :
    (coalesce joins join pieces).Pairwise fun p q => stop p ≤ start q := by
  cases pieces with
  | nil => exact List.Pairwise.nil
  | cons last rest =>
      refine (coalesce_induction joins join
        (M := fun last rest kept => (last :: rest).Pairwise (fun p q => stop p ≤ start q) →
          kept.Pairwise (fun p q => stop p ≤ start q) ∧
            ∀ k ∈ kept, ∃ p ∈ last :: rest, start k = start p) ?_ ?_ ?_ last rest hordered).1
      · intro last hrow
        exact ⟨hrow, fun k hk => ⟨k, hk, rfl⟩⟩
      · intro last p rest kept _ ih hrow
        obtain ⟨hlast, hrow⟩ := List.pairwise_cons.mp hrow
        obtain ⟨hp, hrest⟩ := List.pairwise_cons.mp hrow
        obtain ⟨hkept, hstarts⟩ := ih (List.pairwise_cons.mpr ⟨fun q hq => by
          rw [hstop]
          exact hp q hq, hrest⟩)
        refine ⟨hkept, fun k hk => ?_⟩
        obtain ⟨q, hq, heq⟩ := hstarts k hk
        rcases List.mem_cons.mp hq with rfl | hq
        · exact ⟨last, List.mem_cons_self, heq.trans (hstart last p)⟩
        · exact ⟨q, by simp [hq], heq⟩
      · intro last p rest kept _ ih hrow
        obtain ⟨hlast, hrow⟩ := List.pairwise_cons.mp hrow
        obtain ⟨hkept, hstarts⟩ := ih hrow
        refine ⟨List.pairwise_cons.mpr ⟨fun k hk => ?_, hkept⟩, fun k hk => ?_⟩
        · obtain ⟨q, hq, heq⟩ := hstarts k hk
          rw [heq]
          exact hlast q hq
        · rcases List.mem_cons.mp hk with rfl | hk
          · exact ⟨k, List.mem_cons_self, rfl⟩
          · obtain ⟨q, hq, heq⟩ := hstarts k hk
            exact ⟨q, List.mem_cons_of_mem _ hq, heq⟩

/-- Every piece lies within a kept piece. -/
theorem coalesce_contains (hstart : ∀ p q, start (join p q) = start p)
    (hstop : ∀ p q, stop (join p q) = stop q) {pieces : List P}
    (hpieces : ∀ p ∈ pieces, start p ≤ stop p)
    (hordered : pieces.Pairwise fun p q => stop p ≤ start q) :
    ∀ p ∈ pieces, ∃ k ∈ coalesce joins join pieces, start k ≤ start p ∧ stop p ≤ stop k := by
  cases pieces with
  | nil => exact fun p hp => absurd hp List.not_mem_nil
  | cons last rest =>
      refine coalesce_induction joins join
        (M := fun last rest kept => (∀ p ∈ last :: rest, start p ≤ stop p) →
          (last :: rest).Pairwise (fun p q => stop p ≤ start q) →
          ∀ p ∈ last :: rest, ∃ k ∈ kept, start k ≤ start p ∧ stop p ≤ stop k)
        ?_ ?_ ?_ last rest hpieces hordered
      · exact fun last _ _ p hp => ⟨p, hp, le_rfl, le_rfl⟩
      · intro last p rest kept _ ih hpos hrow q hq
        obtain ⟨hlast, hrow⟩ := List.pairwise_cons.mp hrow
        obtain ⟨hp, hrest⟩ := List.pairwise_cons.mp hrow
        have hbefore : stop last ≤ start p := hlast p List.mem_cons_self
        have hlen : start last ≤ stop last := hpos last List.mem_cons_self
        have hlen' : start p ≤ stop p := hpos p (by simp)
        have hkept := ih (fun r hr => by
            rcases List.mem_cons.mp hr with rfl | hr
            · rw [hstart, hstop]
              exact hlen.trans (hbefore.trans hlen')
            · exact hpos r (by simp [hr]))
          (List.pairwise_cons.mpr ⟨fun r hr => by
            rw [hstop]
            exact hp r hr, hrest⟩)
        obtain ⟨k, hk, hkstart, hkstop⟩ := hkept (join last p) List.mem_cons_self
        rw [hstart] at hkstart
        rw [hstop] at hkstop
        rcases List.mem_cons.mp hq with rfl | hq
        · exact ⟨k, hk, hkstart, (hbefore.trans hlen').trans hkstop⟩
        · rcases List.mem_cons.mp hq with rfl | hq
          · exact ⟨k, hk, hkstart.trans (hlen.trans hbefore), hkstop⟩
          · exact hkept q (List.mem_cons_of_mem _ hq)
      · intro last p rest kept _ ih hpos hrow q hq
        rcases List.mem_cons.mp hq with rfl | hq
        · exact ⟨q, List.mem_cons_self, le_rfl, le_rfl⟩
        · obtain ⟨k, hk, hin⟩ := ih (fun r hr => hpos r (List.mem_cons_of_mem _ hr))
            (List.pairwise_cons.mp hrow).2 q hq
          exact ⟨k, List.mem_cons_of_mem _ hk, hin⟩

/-- A pass whose joins run from the first start to the second stop keeps a tiling. -/
theorem Tiles.coalesce (hstart : ∀ p q, start (join p q) = start p)
    (hstop : ∀ p q, stop (join p q) = stop q) {pieces : List P}
    (h : Tiles start stop a b pieces) : Tiles start stop a b (coalesce joins join pieces) := by
  cases pieces with
  | nil => exact h
  | cons last rest =>
      refine coalesce_induction joins join
        (M := fun last rest kept => ∀ a, Tiles start stop a b (last :: rest) →
          Tiles start stop a b kept) ?_ ?_ ?_ last rest a h
      · exact fun _ _ h => h
      · rintro last p rest kept _ ih a ⟨ha, hlast, hp, hlt, hrest⟩
        refine ih a ⟨(hstart last p).trans ha, ?_, ?_⟩
        · rw [hstop]
          exact hlast.trans hlt
        · rw [hstop]
          exact hrest
      · rintro last p rest kept _ ih a ⟨ha, hlast, hrest⟩
        exact ⟨ha, hlast, ih _ hrest⟩

end Lines

end Coalesce

section Separated

variable {A : Type} [LinearOrder A] {ps qs : List (A × A)}

/-- Proper pieces, each of which ends before the next begins. -/
structure Separated (ps : List (A × A)) : Prop where
  proper : ∀ p ∈ ps, p.1 < p.2
  apart : ps.Pairwise fun p q => p.2 < q.1

theorem Separated.tail {p : A × A} (h : Separated (p :: ps)) : Separated ps :=
  ⟨fun q hq => h.proper q (List.mem_cons_of_mem p hq), (List.pairwise_cons.mp h.apart).2⟩

theorem Separated.head_lt {p : A × A} (h : Separated (p :: ps)) {q : A × A} (hq : q ∈ ps) :
    p.2 < q.1 :=
  (List.pairwise_cons.mp h.apart).1 q hq

theorem separated_of_isChain (hproper : ∀ p ∈ ps, p.1 < p.2)
    (hchain : ps.IsChain fun p q => p.2 < q.1) : Separated ps := by
  induction ps with
  | nil => exact ⟨hproper, List.Pairwise.nil⟩
  | cons p ps ih =>
      have htail := ih (fun q hq => hproper q (List.mem_cons_of_mem p hq)) hchain.tail
      refine ⟨hproper, List.pairwise_cons.mpr ⟨fun r hr => ?_, htail.apart⟩⟩
      cases ps with
      | nil => cases hr
      | cons q ps =>
          have hpq : p.2 < q.1 := (List.isChain_cons_cons.mp hchain).1
          rcases List.mem_cons.mp hr with rfl | hr
          · exact hpq
          · exact (hpq.trans (htail.proper q List.mem_cons_self)).trans (htail.head_lt hr)

/-- The first piece begins no later than any covered point. -/
theorem Separated.head_le {p : A × A} (h : Separated (p :: ps)) {x : A}
    (hx : ∃ q ∈ p :: ps, q.1 ≤ x ∧ x < q.2) : p.1 ≤ x := by
  obtain ⟨q, hq, hle, -⟩ := hx
  rcases List.mem_cons.mp hq with rfl | hq
  · exact hle
  · exact ((h.proper p List.mem_cons_self).trans (h.head_lt hq)).le.trans hle

/-- The end of the first piece is not covered. -/
theorem Separated.head_stop_free {p : A × A} (h : Separated (p :: ps)) :
    ¬ ∃ q ∈ p :: ps, q.1 ≤ p.2 ∧ p.2 < q.2 := by
  rintro ⟨q, hq, hle, hlt⟩
  rcases List.mem_cons.mp hq with rfl | hq
  · exact lt_irrefl _ hlt
  · exact absurd hle (not_le.mpr (h.head_lt hq))

theorem Separated.covers_tail_iff {p : A × A} (h : Separated (p :: ps)) (x : A) :
    (∃ q ∈ ps, q.1 ≤ x ∧ x < q.2) ↔ p.2 < x ∧ ∃ q ∈ p :: ps, q.1 ≤ x ∧ x < q.2 := by
  constructor
  · rintro ⟨q, hq, hle, hlt⟩
    exact ⟨(h.head_lt hq).trans_le hle, q, List.mem_cons_of_mem p hq, hle, hlt⟩
  · rintro ⟨hx, q, hq, hle, hlt⟩
    rcases List.mem_cons.mp hq with rfl | hq
    · exact absurd hlt (not_lt.mpr hx.le)
    · exact ⟨q, hq, hle, hlt⟩

/-- The covered points determine the pieces. -/
theorem Separated.eq_of_covers (h : Separated ps) (h' : Separated qs)
    (hsame : ∀ x, (∃ p ∈ ps, p.1 ≤ x ∧ x < p.2) ↔ ∃ q ∈ qs, q.1 ≤ x ∧ x < q.2) : ps = qs := by
  induction ps generalizing qs with
  | nil =>
      cases qs with
      | nil => rfl
      | cons q qs =>
          have hq := (hsame q.1).mpr ⟨q, List.mem_cons_self, le_rfl, h'.proper q (by simp)⟩
          simp at hq
  | cons p ps ih =>
      cases qs with
      | nil =>
          have hp := (hsame p.1).mp ⟨p, List.mem_cons_self, le_rfl, h.proper p (by simp)⟩
          simp at hp
      | cons q qs =>
          have hp : p.1 < p.2 := h.proper p List.mem_cons_self
          have hq : q.1 < q.2 := h'.proper q List.mem_cons_self
          have hstart : p.1 = q.1 := le_antisymm
            (h.head_le ((hsame q.1).mpr ⟨q, List.mem_cons_self, le_rfl, hq⟩))
            (h'.head_le ((hsame p.1).mp ⟨p, List.mem_cons_self, le_rfl, hp⟩))
          have hstop : p.2 = q.2 := by
            -- the earlier of two different ends would be covered
            rcases lt_trichotomy p.2 q.2 with hlt | heq | hgt
            · exact absurd ((hsame p.2).mpr
                ⟨q, List.mem_cons_self, hstart ▸ hp.le, hlt⟩) h.head_stop_free
            · exact heq
            · exact absurd ((hsame q.2).mp
                ⟨p, List.mem_cons_self, hstart ▸ hq.le, hgt⟩) h'.head_stop_free
          have hrest : ps = qs := ih h.tail h'.tail fun x => by
            rw [h.covers_tail_iff, h'.covers_tail_iff, hsame x, hstop]
          rw [hrest, Prod.ext hstart hstop]

open MeasureTheory in
/-- The pieces of the line measure the sum of their lengths. -/
theorem Separated.volume_eq {ps : List (Real × Real)} (h : Separated ps) :
    volume (⋃ p ∈ ps, Set.Ico p.1 p.2) = ENNReal.ofReal (ps.map fun p => p.2 - p.1).sum := by
  induction ps with
  | nil => simp
  | cons p ps ih =>
      have hdisjoint : Disjoint (Set.Ico p.1 p.2) (⋃ q ∈ ps, Set.Ico q.1 q.2) := by
        simp only [Set.disjoint_iUnion_right]
        intro q hq
        rw [Set.Ico_disjoint_Ico]
        exact (min_le_left _ _).trans ((h.head_lt hq).le.trans (le_max_right _ _))
      have hmeasurable : MeasurableSet (⋃ q ∈ ps, Set.Ico q.1 q.2) :=
        MeasurableSet.biUnion (List.finite_toSet ps).countable fun _ _ => measurableSet_Ico
      have hnonneg : 0 ≤ (ps.map fun p => p.2 - p.1).sum := by
        refine List.sum_nonneg fun d hd => ?_
        obtain ⟨q, hq, rfl⟩ := List.mem_map.mp hd
        exact sub_nonneg.mpr (h.tail.proper q hq).le
      have hunion : (⋃ q ∈ p :: ps, Set.Ico q.1 q.2) =
          Set.Ico p.1 p.2 ∪ ⋃ q ∈ ps, Set.Ico q.1 q.2 := by
        ext x
        simp
      rw [hunion, measure_union hdisjoint hmeasurable, ih h.tail, Real.volume_Ico,
        List.map_cons, List.sum_cons,
        ENNReal.ofReal_add (sub_nonneg.mpr (h.proper p List.mem_cons_self).le) hnonneg]

end Separated

section Extremes

variable {A : Type} [LinearOrder A] {xs : List A} {x : A}

/-- The least of some points is at most each of them. -/
theorem exists_min?_le (h : x ∈ xs) : ∃ least, xs.min? = some least ∧ least ≤ x := by
  obtain ⟨least, hleast⟩ := Option.ne_none_iff_exists'.mp
    (mt List.min?_eq_none_iff.mp (List.ne_nil_of_mem h))
  exact ⟨least, hleast, (List.min?_eq_some_iff.mp hleast).2 x h⟩

theorem exists_le_max? (h : x ∈ xs) : ∃ greatest, xs.max? = some greatest ∧ x ≤ greatest := by
  obtain ⟨greatest, hgreatest⟩ := Option.ne_none_iff_exists'.mp
    (mt List.max?_eq_none_iff.mp (List.ne_nil_of_mem h))
  exact ⟨greatest, hgreatest, (List.max?_eq_some_iff.mp hgreatest).2 x h⟩

end Extremes

section Sorting

variable {A B P : Type} [LinearOrder A] [LinearOrder B] (first : P → A) (second : P → B)

/-- The order of the tuples of two values. -/
def tupleLe (p q : P) : Prop := first p < first q ∨ first p = first q ∧ second p ≤ second q

instance : DecidableRel (tupleLe first second) :=
  fun _ _ => inferInstanceAs (Decidable (_ ∨ _))

instance : Std.Total (tupleLe first second) := by
  refine ⟨fun p q => ?_⟩
  rcases lt_trichotomy (first p) (first q) with hlt | heq | hgt
  · exact Or.inl (Or.inl hlt)
  · exact (le_total (second p) (second q)).imp (fun h => Or.inr ⟨heq, h⟩)
      fun h => Or.inr ⟨heq.symm, h⟩
  · exact Or.inr (Or.inl hgt)

instance : IsTrans P (tupleLe first second) := by
  refine ⟨fun p q r hpq hqr => ?_⟩
  rcases hpq with hpq | ⟨hpq, hpq'⟩ <;> rcases hqr with hqr | ⟨hqr, hqr'⟩
  · exact Or.inl (hpq.trans hqr)
  · exact Or.inl (hqr ▸ hpq)
  · exact Or.inl (hpq.symm ▸ hqr)
  · exact Or.inr ⟨hpq.trans hqr, hpq'.trans hqr'⟩

variable {first second}

theorem tupleLe.first_le {p q : P} (h : tupleLe first second p q) : first p ≤ first q :=
  h.elim le_of_lt fun h => h.1.le

theorem tupleLe.antisymm {p q : P} (h : tupleLe first second p q)
    (h' : tupleLe first second q p) : first p = first q ∧ second p = second q := by
  rcases h with h | ⟨h, hle⟩
  · exact absurd h (not_lt.mpr h'.first_le)
  · rcases h' with h' | ⟨-, hle'⟩
    · exact absurd h (ne_of_gt h')
    · exact ⟨h, le_antisymm hle hle'⟩

/-- Pieces sorted as tuples are in the order of their first values. -/
theorem pairwise_first_insertionSort (pieces : List P) :
    (pieces.insertionSort (tupleLe first second)).Pairwise fun p q => first p ≤ first q :=
  (List.pairwise_insertionSort _ _).imp tupleLe.first_le

end Sorting

end Dalston.Foundation
