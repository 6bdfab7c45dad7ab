import Mathlib

/-!
# Insertion-ordered dictionaries

A dictionary is its list of entries in insertion order. Setting a key that is
present replaces the value where it stands; setting a new key appends it. A
lookup reads the first entry of the key.
-/

namespace Dalston.Foundation

/-- The entries of a dictionary, oldest key first. -/
abbrev Dict (V : Type) := List (String × V)

namespace Dict

variable {V : Type}

def get? : Dict V → String → Option V
  | [], _ => none
  | (k, v) :: rest, key => if k = key then some v else get? rest key

def set : Dict V → String → V → Dict V
  | [], key, value => [(key, value)]
  | (k, v) :: rest, key, value =>
      if k = key then (k, value) :: rest else (k, v) :: set rest key value

def contains (d : Dict V) (key : String) : Bool := (d.get? key).isSome

def getD (d : Dict V) (key : String) (default : V) : V := (d.get? key).getD default

/-- The entries of `e` are set one after the other, later entries winning. -/
def merge (d e : Dict V) : Dict V := e.foldl (fun acc kv => set acc kv.1 kv.2) d

def erase (d : Dict V) (key : String) : Dict V := d.filter fun kv => kv.1 ≠ key

/-- The entries whose keys are not among those given. -/
def eraseAll (d : Dict V) (keys : List String) : Dict V := d.filter fun kv => kv.1 ∉ keys

@[simp] theorem get?_nil (key : String) : get? ([] : Dict V) key = none := rfl

theorem get?_cons (k : String) (v : V) (rest : Dict V) (key : String) :
    get? ((k, v) :: rest) key = if k = key then some v else get? rest key := rfl

@[simp] theorem get?_set_self (d : Dict V) (key : String) (value : V) :
    get? (set d key value) key = some value := by
  induction d with
  | nil => simp [set, get?_cons]
  | cons kv rest ih =>
      obtain ⟨k, v⟩ := kv
      by_cases hk : k = key
      · simp [set, hk, get?_cons]
      · simp [set, hk, get?_cons, ih]

theorem get?_set_ne (d : Dict V) {key other : String} (value : V) (h : key ≠ other) :
    get? (set d key value) other = get? d other := by
  induction d with
  | nil => simp [set, get?_cons, h]
  | cons kv rest ih =>
      obtain ⟨k, v⟩ := kv
      by_cases hk : k = key
      · subst k
        simp [set, get?_cons, h]
      · simp only [set, hk, if_false, get?_cons, ih]

theorem get?_set (d : Dict V) (key other : String) (value : V) :
    get? (set d key value) other = if key = other then some value else get? d other := by
  by_cases h : key = other
  · subst h
    simp
  · rw [get?_set_ne _ _ h, if_neg h]

/-- An entry after a key was set is an old one, or it has the key. -/
theorem key_of_mem_set {d : Dict V} {key : String} {value : V} {kv : String × V}
    (h : kv ∈ set d key value) : kv ∈ d ∨ kv.1 = key := by
  induction d with
  | nil =>
      rw [List.mem_singleton.mp h]
      exact Or.inr rfl
  | cons entry rest ih =>
      obtain ⟨k, v⟩ := entry
      by_cases hk : k = key
      · simp only [set, hk, if_true, List.mem_cons] at h ⊢
        rcases h with rfl | h
        · exact Or.inr rfl
        · exact Or.inl (Or.inr h)
      · simp only [set, hk, if_false, List.mem_cons] at h ⊢
        rcases h with rfl | h
        · exact Or.inl (Or.inl rfl)
        · exact (ih h).imp_left Or.inr

/-- What holds of a key's entry and of the default holds of a lookup with that default. -/
theorem getD_of {d : Dict V} {key : String} {default : V} {P : V → Prop}
    (hentry : ∀ value, d.get? key = some value → P value) (hdefault : P default) :
    P (d.getD key default) := by
  rw [getD]
  cases h : d.get? key with
  | none => exact hdefault
  | some value => exact hentry value h

/-- What a lookup finds is an entry. -/
theorem mem_of_get? {d : Dict V} {key : String} {value : V} (h : get? d key = some value) :
    (key, value) ∈ d := by
  induction d with
  | nil => cases h
  | cons entry rest ih =>
      obtain ⟨k, v⟩ := entry
      rw [get?_cons] at h
      split at h
      next heq =>
        obtain rfl := Option.some.inj h
        exact heq ▸ List.mem_cons_self
      next => exact List.mem_cons_of_mem _ (ih h)

theorem get?_eq_none {d : Dict V} {key : String} (h : key ∉ d.map Prod.fst) :
    get? d key = none := by
  cases hget : get? d key with
  | none => rfl
  | some value => exact absurd (List.mem_map_of_mem (mem_of_get? hget)) h

theorem contains_iff (d : Dict V) (key : String) :
    contains d key = true ↔ ∃ kv ∈ d, kv.1 = key := by
  induction d with
  | nil => simp [contains]
  | cons kv rest ih =>
      obtain ⟨k, v⟩ := kv
      by_cases hk : k = key
      · simp [contains, get?_cons, hk]
      · have ih' : (get? rest key).isSome = true ↔ ∃ kv ∈ rest, kv.1 = key := ih
        simp only [contains, get?_cons, hk, if_false, ih', List.exists_mem_cons_iff, false_or]

/-- The entry of a key whose value may be missing. -/
def optional (key : String) (value : Option V) : Dict V :=
  (value.map fun v => (key, v)).toList

@[simp] theorem merge_nil (d : Dict V) : merge d [] = d := rfl

@[simp] theorem merge_cons (d e : Dict V) (kv : String × V) :
    merge d (kv :: e) = merge (set d kv.1 kv.2) e := rfl

@[simp] theorem merge_append (d e f : Dict V) : merge d (e ++ f) = merge (merge d e) f :=
  List.foldl_append

/-- Entries of other keys do not touch a key. -/
theorem get?_merge_of_ne (d : Dict V) {e : Dict V} {key : String} (h : ∀ kv ∈ e, kv.1 ≠ key) :
    get? (merge d e) key = get? d key := by
  induction e generalizing d with
  | nil => rfl
  | cons kv rest ih =>
      rw [merge_cons, ih _ fun kv' hkv' => h kv' (List.mem_cons_of_mem _ hkv')]
      exact get?_set_ne d kv.2 (h kv List.mem_cons_self)

theorem mem_optional {key : String} {value : Option V} {kv : String × V} :
    kv ∈ optional key value ↔ ∃ v, value = some v ∧ kv = (key, v) := by
  cases value with
  | none => simp [optional]
  | some v => simp [optional]

/-- Merging an optional entry replaces the value of its key, if it has one. -/
theorem get?_merge_optional (d : Dict V) (key other : String) (value : Option V) :
    get? (merge d (optional key value)) other =
      if key = other then value.or (get? d other) else get? d other := by
  cases value with
  | none => simp [optional]
  | some v => simp [optional, get?_set]

theorem get?_eraseAll (d : Dict V) (keys : List String) (key : String) :
    get? (eraseAll d keys) key = if key ∈ keys then none else get? d key := by
  induction d with
  | nil => simp [eraseAll]
  | cons kv rest ih =>
      obtain ⟨k, v⟩ := kv
      rw [eraseAll] at ih ⊢
      by_cases hk : k ∈ keys
      · rw [List.filter_cons_of_neg (by simpa using hk), ih, get?_cons]
        by_cases heq : k = key
        · subst heq
          simp [hk]
        · rw [if_neg heq]
      · rw [List.filter_cons_of_pos (by simpa using hk), get?_cons, get?_cons, ih]
        by_cases heq : k = key
        · subst heq
          simp [hk]
        · simp [heq]

theorem eraseAll_eraseAll (d : Dict V) (keys keys' : List String) :
    eraseAll (eraseAll d keys) keys' = eraseAll d (keys ++ keys') := by
  rw [eraseAll, eraseAll, eraseAll, List.filter_filter]
  refine List.filter_congr fun kv _ => ?_
  simp [Bool.and_comm]

theorem length_eraseAll_le (d : Dict V) (keys : List String) :
    (eraseAll d keys).length ≤ d.length :=
  List.length_filter_le _ _

theorem length_eraseAll_lt {d : Dict V} {keys : List String} {kv : String × V} (hkv : kv ∈ d)
    (h : kv.1 ∈ keys) : (eraseAll d keys).length < d.length :=
  List.length_filter_lt_length_iff_exists.mpr ⟨kv, hkv, by simpa using h⟩

/-- A new key adds an entry, a key that is there none. -/
theorem length_set (d : Dict V) (key : String) (value : V) :
    (d.set key value).length = if (d.get? key).isSome then d.length else d.length + 1 := by
  induction d with
  | nil => rfl
  | cons kv rest ih =>
      obtain ⟨k, v⟩ := kv
      by_cases hk : k = key
      · simp [set, get?_cons, hk]
      · rw [set, if_neg hk, get?_cons, if_neg hk, List.length_cons, List.length_cons, ih]
        split_ifs <;> rfl

theorem erase_eq_eraseAll (d : Dict V) (key : String) : erase d key = eraseAll d [key] := by
  simp [erase, eraseAll]

theorem get?_erase (d : Dict V) (key other : String) :
    get? (erase d key) other = if key = other then none else get? d other := by
  simp only [erase_eq_eraseAll, get?_eraseAll, List.mem_singleton, eq_comm]

section Keys

/-- Every key has one entry. -/
def Distinct (d : Dict V) : Prop := (d.map Prod.fst).Nodup

theorem Distinct.get?_of_mem {d : Dict V} (h : d.Distinct) {key : String} {value : V}
    (hmem : (key, value) ∈ d) : get? d key = some value := by
  induction d with
  | nil => cases hmem
  | cons kv rest ih =>
      obtain ⟨k, v⟩ := kv
      obtain ⟨hk, hrest⟩ := List.nodup_cons.mp h
      rw [get?_cons]
      rcases List.mem_cons.mp hmem with heq | hmem
      · obtain ⟨rfl, rfl⟩ := Prod.mk.inj heq
        rw [if_pos rfl]
      · have hne : k ≠ key := by
          rintro rfl
          exact hk (List.mem_map.mpr ⟨_, hmem, rfl⟩)
        rw [if_neg hne]
        exact ih hrest hmem

theorem Distinct.set {d : Dict V} (h : d.Distinct) (key : String) (value : V) :
    (d.set key value).Distinct := by
  induction d with
  | nil => exact List.nodup_singleton key
  | cons kv rest ih =>
      obtain ⟨k, v⟩ := kv
      obtain ⟨hk, hrest⟩ := List.nodup_cons.mp h
      by_cases heq : k = key
      · simpa [Dict.set, heq, Distinct] using h
      · rw [Dict.set, if_neg heq]
        refine List.nodup_cons.mpr ⟨?_, ih hrest⟩
        intro hmem
        obtain ⟨kv', hkv', hfst⟩ := List.mem_map.mp hmem
        rcases key_of_mem_set hkv' with hold | hkey
        · exact hk (List.mem_map.mpr ⟨kv', hold, hfst⟩)
        · exact heq (hfst.symm.trans hkey)

theorem Distinct.eraseAll {d : Dict V} (h : d.Distinct) (keys : List String) :
    (d.eraseAll keys).Distinct :=
  h.sublist (List.filter_sublist.map Prod.fst)

end Keys

end Dict

end Dalston.Foundation
