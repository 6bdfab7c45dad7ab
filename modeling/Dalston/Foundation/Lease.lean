import Mathlib

/-!
# Leases

A lock that is taken for a time. Whoever finds no lease in force takes one, in
one step; it is in force until it is given back or its time has passed. Only the
holder a lease names can give it back.
-/

namespace Dalston.Foundation

/-- The value and the expiry of a lock: `SET key holder NX EX ttl`. -/
structure Lease (H : Type) where
  holder : H
  expiresAt : Nat

namespace Lease

variable {H : Type}

/-- The lease that is in force. -/
def current (lock : Option (Lease H)) (now : Nat) : Option (Lease H) :=
  lock.filter fun lease => now ≤ lease.expiresAt

/-- Take the lock, unless a lease is in force. -/
def acquire (lock : Option (Lease H)) (now ttl : Nat) (holder : H) : Option (Lease H) :=
  (current lock now).or (some ⟨holder, now + ttl⟩)

/-- Check the holder and delete, in one script. -/
def release [DecidableEq H] (lock : Option (Lease H)) (now : Nat) (holder : H) :
    Option (Lease H) :=
  (current lock now).filter fun lease => lease.holder ≠ holder

variable {lock : Option (Lease H)} {now ttl : Nat} {holder : H} {lease : Lease H}

theorem current_eq_some_iff :
    current lock now = some lease ↔ lock = some lease ∧ now ≤ lease.expiresAt := by
  rw [current, Option.filter_eq_some_iff, decide_eq_true_eq]

/-- A lease in force is still there after an attempt to take the lock. -/
theorem current_acquire (h : current lock now = some lease) :
    current (acquire lock now ttl holder) now = some lease := by
  rw [acquire, h, Option.some_or, current_eq_some_iff]
  exact ⟨rfl, (current_eq_some_iff.mp h).2⟩

theorem acquire_of_none (h : current lock now = none) :
    acquire lock now ttl holder = some ⟨holder, now + ttl⟩ := by
  rw [acquire, h, Option.none_or]

/-- Only its holder gives a lease back. -/
theorem current_release [DecidableEq H] (h : current lock now = some lease)
    (hne : lease.holder ≠ holder) : current (release lock now holder) now = some lease := by
  have hkept : release lock now holder = some lease := by
    rw [release, h, Option.filter_eq_some_iff]
    exact ⟨rfl, decide_eq_true hne⟩
  exact current_eq_some_iff.mpr ⟨hkept, (current_eq_some_iff.mp h).2⟩

end Lease

end Dalston.Foundation
