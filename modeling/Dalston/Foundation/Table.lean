import Mathlib

/-!
# Tables

A table holds rows of which no two have the same key. Rows are looked up by
their key, selected by a test in an order, changed in place and deleted. Two
tables agree on the rows that satisfy a test when they hold the same such rows;
what is computed from those rows alone is then the same for both.

## Implementation notes

The order in which the rows of a table are listed is no part of its contents,
so agreement is about membership, and a selection names its order.
-/

namespace Dalston.Foundation

/-- Rows under a primary key. -/
structure Table {R K : Type} (key : R → K) where
  rows : List R
  unique : (rows.map key).Nodup

namespace Table

variable {R K P : Type} {key : R → K}

/-- The row under a key. -/
def find? [DecidableEq K] (t : Table key) (k : K) : Option R := t.rows.find? fun r => key r = k

/-- The rows that satisfy a test, in the order of their positions. -/
def select [LinearOrder P] (t : Table key) (p : R → Bool) (position : R → P) : List R :=
  (t.rows.filter p).insertionSort fun r r' => position r ≤ position r'

/-- Change every row in place; its key stays. -/
def update (t : Table key) (f : R → R) (hf : ∀ r, key (f r) = key r) : Table key where
  rows := t.rows.map f
  unique := by
    have hkeys : (t.rows.map f).map key = t.rows.map key := by simp [Function.comp_def, hf]
    rw [hkeys]
    exact t.unique

def delete (t : Table key) (p : R → Bool) : Table key where
  rows := t.rows.filter fun r => !p r
  unique := t.unique.sublist (List.filter_sublist.map key)

/-- `INSERT … ON CONFLICT DO NOTHING`. -/
def insertOrIgnore [DecidableEq K] (t : Table key) (r : R) : Table key :=
  if h : ∀ r' ∈ t.rows, key r' ≠ key r then
    { rows := t.rows ++ [r]
      unique := by
        rw [List.map_append, List.nodup_append]
        refine ⟨t.unique, by simp, ?_⟩
        rintro k hk k' hk' rfl
        obtain ⟨r', hr', rfl⟩ := List.mem_map.mp hk
        exact h r' hr' (by simpa using hk') }
  else t

/-- The tables hold the same rows among those that satisfy the test. -/
def Agree (seen : R → Prop) (t t' : Table key) : Prop := ∀ r, seen r → (r ∈ t.rows ↔ r ∈ t'.rows)

theorem eq_of_key {t : Table key} {r r' : R} (hr : r ∈ t.rows) (hr' : r' ∈ t.rows)
    (h : key r = key r') : r = r' :=
  List.inj_on_of_nodup_map t.unique hr hr' h

theorem nodup (t : Table key) : t.rows.Nodup := List.Nodup.of_map key t.unique

section Lookup

variable [DecidableEq K] {t t' : Table key} {k : K} {r : R}

theorem find?_eq_some_iff : t.find? k = some r ↔ r ∈ t.rows ∧ key r = k := by
  constructor
  · intro h
    exact ⟨List.mem_of_find?_eq_some h, by simpa using List.find?_some h⟩
  · rintro ⟨hr, rfl⟩
    cases hfind : t.find? (key r) with
    | none =>
        have hne := List.find?_eq_none.mp hfind r hr
        simp at hne
    | some r' =>
        have hkey : key r' = key r := by simpa using List.find?_some hfind
        rw [eq_of_key (List.mem_of_find?_eq_some hfind) hr hkey]

theorem find?_eq_none_iff : t.find? k = none ↔ ∀ r ∈ t.rows, key r ≠ k := by
  simp [find?]

/-- Agreeing tables answer a lookup the same, when the answer is one of the agreed rows. -/
theorem Agree.find? {seen : R → Bool} (h : Agree (seen · = true) t t') (k : K) :
    (t.find? k).filter seen = (t'.find? k).filter seen := by
  apply Option.ext
  intro r
  simp only [Option.filter_eq_some_iff, find?_eq_some_iff]
  constructor
  · rintro ⟨⟨hr, hkey⟩, hseen⟩
    exact ⟨⟨(h r hseen).mp hr, hkey⟩, hseen⟩
  · rintro ⟨⟨hr, hkey⟩, hseen⟩
    exact ⟨⟨(h r hseen).mpr hr, hkey⟩, hseen⟩

end Lookup

section Selection

variable [LinearOrder P] {t t' : Table key} {p : R → Bool} {position : R → P} {r : R}

theorem mem_select : r ∈ t.select p position ↔ r ∈ t.rows ∧ p r = true := by
  rw [select, List.mem_insertionSort, List.mem_filter]

/-- A selected row is within the limit, or the limit is reached by rows before it. -/
theorem mem_take_select (h : r ∈ t.select p position) (limit : Nat) :
    r ∈ (t.select p position).take limit ∨
      ((t.select p position).take limit).length = limit ∧
        ∀ r' ∈ (t.select p position).take limit, position r' ≤ position r := by
  have htotal : Std.Total fun r r' : R => position r ≤ position r' :=
    ⟨fun r r' => le_total (position r) (position r')⟩
  have htrans : IsTrans R fun r r' => position r ≤ position r' := ⟨fun _ _ _ => le_trans⟩
  have hsorted : (t.select p position).Pairwise fun r r' => position r ≤ position r' :=
    List.pairwise_insertionSort _ _
  rw [← List.take_append_drop limit (t.select p position)] at h hsorted
  obtain hr | hr := List.mem_append.mp h
  · exact Or.inl hr
  · refine Or.inr ⟨?_, fun r' hr' => (List.pairwise_append.mp hsorted).2.2 r' hr' r hr⟩
    have hlong := List.length_pos_of_mem hr
    rw [List.length_drop] at hlong
    rw [List.length_take]
    omega

/-- Agreeing tables are selected from the same, when all selected rows are agreed ones. -/
theorem Agree.select {seen : R → Prop} (h : Agree seen t t') (hp : ∀ r, p r = true → seen r)
    (hposition : ∀ r r', position r = position r' → key r = key r') :
    t.select p position = t'.select p position := by
  have hperm : (t.rows.filter p).Perm (t'.rows.filter p) := by
    apply (List.perm_ext_iff_of_nodup (t.nodup.filter p) (t'.nodup.filter p)).mpr
    intro r
    simp only [List.mem_filter]
    exact and_congr_left fun hr => h r (hp r hr)
  have htotal : Std.Total fun r r' : R => position r ≤ position r' :=
    ⟨fun r r' => le_total (position r) (position r')⟩
  have htrans : IsTrans R fun r r' => position r ≤ position r' := ⟨fun _ _ _ => le_trans⟩
  refine List.Perm.eq_of_pairwise ?_ (List.pairwise_insertionSort _ _)
    (List.pairwise_insertionSort _ _) ?_
  · intro r r' hr hr' hle hle'
    have hmem : r ∈ t.rows.filter p := (List.mem_insertionSort _).mp hr
    have hmem' : r' ∈ t.rows.filter p := hperm.mem_iff.mpr ((List.mem_insertionSort _).mp hr')
    exact eq_of_key (List.mem_of_mem_filter hmem) (List.mem_of_mem_filter hmem')
      (hposition r r' (le_antisymm hle hle'))
  · exact ((List.perm_insertionSort _ _).trans hperm).trans (List.perm_insertionSort _ _).symm

end Selection

section Changes

variable {t t' : Table key} {f : R → R} {hf : ∀ r, key (f r) = key r} {p : R → Bool} {r : R}

@[simp] theorem mem_update : r ∈ (t.update f hf).rows ↔ ∃ r₀ ∈ t.rows, f r₀ = r := by
  simp [update]

@[simp] theorem mem_delete : r ∈ (t.delete p).rows ↔ r ∈ t.rows ∧ p r = false := by
  simp [delete]

variable {seen : R → Prop}

theorem Agree.mono {seen' : R → Prop} (h : Agree seen t t') (hseen : ∀ r, seen' r → seen r) :
    Agree seen' t t' := fun r hr => h r (hseen r hr)

/-- A change of rows that brings none into sight keeps the agreement. -/
theorem Agree.image {u u' : Table key} (h : Agree seen t t')
    (hu : ∀ r, r ∈ u.rows ↔ ∃ r₀ ∈ t.rows, f r₀ = r)
    (hu' : ∀ r, r ∈ u'.rows ↔ ∃ r₀ ∈ t'.rows, f r₀ = r)
    (hseen : ∀ r, r ∈ t.rows ∨ r ∈ t'.rows → seen (f r) → seen r) : Agree seen u u' := by
  intro r hr
  rw [hu, hu']
  constructor
  · rintro ⟨r₀, hr₀, rfl⟩
    exact ⟨r₀, (h r₀ (hseen r₀ (Or.inl hr₀) hr)).mp hr₀, rfl⟩
  · rintro ⟨r₀, hr₀, rfl⟩
    exact ⟨r₀, (h r₀ (hseen r₀ (Or.inr hr₀) hr)).mpr hr₀, rfl⟩

theorem Agree.delete (h : Agree seen t t') : Agree seen (t.delete p) (t'.delete p) := by
  intro r hr
  simp only [mem_delete]
  exact and_congr_left fun _ => h r hr

end Changes

section Inserts

variable [DecidableEq K] {t : Table key} {r r' : R}

/-- A row is inserted when no other has its key. -/
theorem mem_insertOrIgnore :
    r' ∈ (t.insertOrIgnore r).rows ↔
      r' ∈ t.rows ∨ r' = r ∧ ∀ r₀ ∈ t.rows, key r₀ ≠ key r := by
  unfold insertOrIgnore
  split
  · rename_i h
    simp only [List.mem_append, List.mem_singleton]
    exact or_congr_right (iff_self_and.mpr fun _ => h)
  · rename_i h
    exact ⟨Or.inl, fun hr => hr.resolve_right fun hnew => h hnew.2⟩

/-- Either way the key has a row afterwards. -/
theorem exists_insertOrIgnore (t : Table key) (r : R) :
    ∃ r' ∈ (t.insertOrIgnore r).rows, key r' = key r := by
  by_cases h : ∃ r' ∈ t.rows, key r' = key r
  · obtain ⟨r', hr', hkey⟩ := h
    exact ⟨r', mem_insertOrIgnore.mpr (Or.inl hr'), hkey⟩
  · have hnew : ∀ r' ∈ t.rows, key r' ≠ key r := fun r' hr' hkey => h ⟨r', hr', hkey⟩
    exact ⟨r, mem_insertOrIgnore.mpr (Or.inr ⟨rfl, hnew⟩), rfl⟩

end Inserts

section Gone

variable [DecidableEq K] {t t' t'' : Table key} {k : K}

/-- The key had a row and has none any more. -/
def gone (t t' : Table key) (k : K) : Bool := (t.find? k).isSome && (t'.find? k).isNone

/-- No row has a new key. -/
def Within (t' t : Table key) : Prop := ∀ k, t.find? k = none → t'.find? k = none

theorem Within.refl (t : Table key) : t.Within t := fun _ h => h

theorem Within.trans (h' : t''.Within t') (h : t'.Within t) : t''.Within t :=
  fun k hk => h' k (h k hk)

@[simp] theorem gone_self (t : Table key) (k : K) : t.gone t k = false := by
  cases h : t.find? k <;> simp [gone, h]

/-- A key goes in one of two steps. -/
theorem gone_trans (h : t'.Within t) (h' : t''.Within t') (k : K) :
    t.gone t'' k = (t.gone t' k || t'.gone t'' k) := by
  cases hk : t.find? k with
  | none => simp [gone, hk, h k hk]
  | some r =>
      cases hk' : t'.find? k with
      | none => simp [gone, hk, hk', h' k hk']
      | some r' => simp [gone, hk, hk']

/-- The keys that remain when the rows of `p` are deleted. -/
def Keeps (p : R → Bool) (t t' : Table key) : Prop :=
  ∀ k, (∃ r ∈ t'.rows, key r = k) ↔ ∃ r ∈ t.rows, key r = k ∧ p r = false

variable {p : R → Bool}

omit [DecidableEq K] in
theorem keeps_image {f : R → R} (hf : ∀ r, key (f r) = key r)
    (h : ∀ r, r ∈ t'.rows ↔ ∃ r₀ ∈ t.rows, p r₀ = false ∧ f r₀ = r) : Keeps p t t' := by
  intro k
  constructor
  · rintro ⟨r, hr, rfl⟩
    obtain ⟨r₀, hr₀, hp, rfl⟩ := (h r).mp hr
    exact ⟨r₀, hr₀, (hf r₀).symm, hp⟩
  · rintro ⟨r₀, hr₀, rfl, hp⟩
    exact ⟨f r₀, (h _).mpr ⟨r₀, hr₀, hp, rfl⟩, hf r₀⟩

theorem Keeps.within (h : Keeps p t t') : t'.Within t := by
  intro k hk
  rw [find?_eq_none_iff] at hk ⊢
  intro r hr hkey
  obtain ⟨r₀, hr₀, hkey₀, _⟩ := (h k).mp ⟨r, hr, hkey⟩
  exact hk r₀ hr₀ hkey₀

theorem Keeps.gone (h : Keeps p t t') (k : K) :
    t.gone t' k = t.rows.any fun r => key r = k && p r := by
  cases hk : t.find? k with
  | none =>
      have hnone := find?_eq_none_iff.mp hk
      have hany : (t.rows.any fun r => key r = k && p r) = false := by
        simp only [List.any_eq_false, Bool.and_eq_true, decide_eq_true_eq, not_and]
        exact fun r hr hkey => absurd hkey (hnone r hr)
      rw [hany, Table.gone, hk]
      rfl
  | some r =>
      obtain ⟨hr, hkey⟩ := find?_eq_some_iff.mp hk
      have hany : (t.rows.any fun r => key r = k && p r) = p r := by
        rw [Bool.eq_iff_iff]
        simp only [List.any_eq_true, Bool.and_eq_true, decide_eq_true_eq]
        constructor
        · rintro ⟨r', hr', hkey', hp⟩
          rwa [eq_of_key hr hr' (hkey.trans hkey'.symm)]
        · intro hp
          exact ⟨r, hr, hkey, hp⟩
      have hgone : t.gone t' k = (t'.find? k).isNone := by simp [Table.gone, hk]
      rw [hgone, hany]
      cases hp : p r with
      | false =>
          obtain ⟨r', hr', hkey'⟩ := (h k).mpr ⟨r, hr, hkey, hp⟩
          rw [find?_eq_some_iff.mpr ⟨hr', hkey'⟩]
          rfl
      | true =>
          have hnone : t'.find? k = none := by
            rw [find?_eq_none_iff]
            intro r' hr' hkey'
            obtain ⟨r₀, hr₀, hkey₀, hkept⟩ := (h k).mp ⟨r', hr', hkey'⟩
            rw [eq_of_key hr₀ hr (hkey₀.trans hkey.symm), hp] at hkept
            cases hkept
          rw [hnone]
          rfl

end Gone

end Table

end Dalston.Foundation
