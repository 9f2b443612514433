import Mathlib.Data.Nat.Notation
import Mathlib.Data.Option.Basic
/-!
# A recursive mutex

A mutex its owner may lock again. A free mutex has no holder; a held one has
a holder and the number of locks taken beyond the first, so that no state
says it is held by nobody or locked by two threads.

`lock` and `unlock` are `none` where the thread would block or may not do
the call. A call that locks, reads and unlocks in one step is enabled
exactly where `lock` is, and leaves the mutex alone.
-/

namespace Transition

universe u

/-- `std::recursive_mutex`: its holder and the locks beyond the first. -/
structure RecursiveMutex (θ : Type u) where
  holder : Option (θ × ℕ)
  deriving DecidableEq, Repr

namespace RecursiveMutex

variable {θ : Type u} [DecidableEq θ] {m m' : RecursiveMutex θ} {t t' : θ}

/-- Held by no thread. -/
def free : RecursiveMutex θ := ⟨none⟩

/-- The mutex after `t` locks it; `none` while another thread holds it. -/
def lock (t : θ) (m : RecursiveMutex θ) : Option (RecursiveMutex θ) :=
  match m.holder with
  | none => some ⟨some (t, 0)⟩
  | some (owner, extra) => if owner = t then some ⟨some (t, extra + 1)⟩ else none

/-- The mutex after `t` unlocks it once; `none` unless `t` holds it. -/
def unlock (t : θ) (m : RecursiveMutex θ) : Option (RecursiveMutex θ) :=
  match m.holder with
  | none => none
  | some (owner, extra) =>
    if owner = t then some (match extra with | 0 => free | k + 1 => ⟨some (t, k)⟩) else none

/-- Some thread other than `t` holds the mutex. -/
def BlockedFor (t : θ) (m : RecursiveMutex θ) : Prop :=
  ∃ owner extra, m.holder = some (owner, extra) ∧ owner ≠ t

@[simp] theorem lock_free : lock t free = some ⟨some (t, 0)⟩ := rfl

@[simp] theorem lock_self (k : ℕ) : lock t ⟨some (t, k)⟩ = some ⟨some (t, k + 1)⟩ := by
  simp [lock]

@[simp] theorem lock_other (k : ℕ) (h : t' ≠ t) : lock t ⟨some (t', k)⟩ = none := by
  simp [lock, h]

@[simp] theorem unlock_zero : unlock t ⟨some (t, 0)⟩ = some free := by
  simp [unlock]

@[simp] theorem unlock_succ (k : ℕ) : unlock t ⟨some (t, k + 1)⟩ = some ⟨some (t, k)⟩ := by
  simp [unlock]

/-- **A thread blocks exactly on a mutex another thread holds.** -/
theorem lock_eq_none_iff : lock t m = none ↔ BlockedFor t m := by
  obtain ⟨_ | ⟨owner, extra⟩⟩ := m
  · simp [lock, BlockedFor]
  · by_cases h : owner = t <;> simp [lock, BlockedFor, h]

/-- Unlocking undoes locking. -/
theorem unlock_of_lock (h : lock t m = some m') : unlock t m' = some m := by
  obtain ⟨_ | ⟨owner, extra⟩⟩ := m
  · obtain rfl := Option.some.inj h
    exact unlock_zero
  · by_cases ht : owner = t
    · subst ht
      rw [lock_self] at h
      obtain rfl := Option.some.inj h
      exact unlock_succ extra
    · rw [lock_other extra ht] at h
      cases h

/-- A critical section taken as one step: the mutex is locked and unlocked. -/
def hold (t : θ) (m : RecursiveMutex θ) : Option (RecursiveMutex θ) :=
  (m.lock t).bind fun m' => m'.unlock t

/-- **The critical section runs exactly where the lock would not block**, and
leaves the mutex as it was. -/
theorem hold_eq_some (h : ¬ BlockedFor t m) : hold t m = some m := by
  rw [← lock_eq_none_iff] at h
  obtain ⟨m', hm⟩ := Option.ne_none_iff_exists'.mp h
  rw [hold, hm]
  exact unlock_of_lock hm

theorem hold_eq_none (h : BlockedFor t m) : hold t m = none := by
  rw [hold, lock_eq_none_iff.mpr h]
  rfl

omit [DecidableEq θ] in
/-- Nobody is kept out of a free mutex. -/
theorem not_blockedFor_free : ¬ BlockedFor t free := nofun

omit [DecidableEq θ] in
/-- Nobody is kept out of a mutex of their own. -/
theorem not_blockedFor_self (k : ℕ) : ¬ BlockedFor t ⟨some (t, k)⟩ := by
  rintro ⟨owner, extra, h, hne⟩
  obtain ⟨rfl, -⟩ := Prod.mk.inj (Option.some.inj h)
  exact hne rfl

end RecursiveMutex

end Transition
