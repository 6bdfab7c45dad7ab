import Mathlib

/-!
# Sorted sets

A sorted set gives each of its members a score. Adding a member that is present
replaces its score; a range removal drops every member whose score lies in the
closed range. The entries are kept in no particular order.
-/

namespace Dalston.Foundation

/-- The members of a sorted set with their scores. -/
structure SortedSet (M S : Type) where
  entries : List (M × S)
  nodup : (entries.map (·.1)).Nodup

namespace SortedSet

variable {M S : Type}

@[ext] theorem ext {s t : SortedSet M S} (h : s.entries = t.entries) : s = t := by
  cases s
  cases t
  simpa using h

def empty : SortedSet M S := ⟨[], List.nodup_nil⟩

instance : Membership M (SortedSet M S) := ⟨fun s member => member ∈ s.entries.map (·.1)⟩

theorem mem_def {s : SortedSet M S} {member : M} :
    member ∈ s ↔ member ∈ s.entries.map (·.1) := Iff.rfl

instance [DecidableEq M] (member : M) (s : SortedSet M S) : Decidable (member ∈ s) :=
  inferInstanceAs (Decidable (member ∈ s.entries.map (·.1)))

def zcard (s : SortedSet M S) : Nat := s.entries.length

/-- The entries that satisfy a test. -/
def restrict (keep : M × S → Bool) (s : SortedSet M S) : SortedSet M S :=
  ⟨s.entries.filter keep, s.nodup.sublist (List.filter_sublist.map _)⟩

def zadd [DecidableEq M] (member : M) (score : S) (s : SortedSet M S) : SortedSet M S where
  entries := (member, score) :: s.entries.filter fun entry => entry.1 ≠ member
  nodup := by
    rw [List.map_cons, List.nodup_cons]
    constructor
    · intro hmem
      obtain ⟨entry, hentry, hkey⟩ := List.mem_map.mp hmem
      simpa [hkey] using (List.mem_filter.mp hentry).2
    · exact s.nodup.sublist (List.filter_sublist.map _)

section Scores

variable [LinearOrder S]

def zremrangebyscore (low high : S) (s : SortedSet M S) : SortedSet M S :=
  s.restrict fun entry => !(decide (low ≤ entry.2) && decide (entry.2 ≤ high))

/-- How many members have a score above a bound. -/
def above (bound : S) (s : SortedSet M S) : Nat := s.entries.countP fun entry => bound < entry.2

@[simp] theorem above_empty (bound : S) : (empty : SortedSet M S).above bound = 0 := rfl

theorem above_le_zcard (bound : S) (s : SortedSet M S) : s.above bound ≤ s.zcard :=
  List.countP_le_length

theorem above_zadd [DecidableEq M] {member : M} {s : SortedSet M S} (h : member ∉ s)
    (score bound : S) :
    (s.zadd member score).above bound = s.above bound + if bound < score then 1 else 0 := by
  have hfilter : (s.entries.filter fun entry => entry.1 ≠ member) = s.entries := by
    rw [List.filter_eq_self]
    intro entry hentry
    have hne : entry.1 ≠ member :=
      fun heq => h (mem_def.mpr (List.mem_map.mpr ⟨entry, hentry, heq⟩))
    simpa using hne
  simp only [above, zadd, hfilter, List.countP_cons, decide_eq_true_eq]

/-- A range removal keeps every member whose score is above the range. -/
theorem above_zremrangebyscore {high bound : S} (h : high ≤ bound) (low : S)
    (s : SortedSet M S) : (s.zremrangebyscore low high).above bound = s.above bound := by
  simp only [above, zremrangebyscore, restrict, List.countP_filter]
  apply List.countP_congr
  intro entry _
  by_cases hbound : bound < entry.2
  · simp [hbound, not_le.mpr (h.trans_lt hbound)]
  · simp [hbound]

/-- A range removal makes an earlier removal of a smaller range redundant. -/
theorem zremrangebyscore_zremrangebyscore {high high' : S} (h : high ≤ high') (low : S)
    (s : SortedSet M S) :
    (s.zremrangebyscore low high).zremrangebyscore low high' = s.zremrangebyscore low high' := by
  ext1
  simp only [zremrangebyscore, restrict, List.filter_filter]
  apply List.filter_congr
  intro entry _
  by_cases hhigh : entry.2 ≤ high
  · simp [hhigh, hhigh.trans h]
  · simp [hhigh]

@[simp] theorem zremrangebyscore_empty (low high : S) :
    (empty : SortedSet M S).zremrangebyscore low high = empty := rfl

end Scores

end SortedSet

end Dalston.Foundation
