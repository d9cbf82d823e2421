import Mathlib.Tactic

/-!
# The reader-writer latch, for one thread

`ReaderWriterLatch` of `src/include/util/rwlatch.h`, as one thread alone sees it: a `w_lock` or
`r_lock` that would wait for another holder never returns, which is `none`.
-/

namespace Dawn

/-- `ReaderWriterLatch`: `writer_entered_` and `reader_count_`. -/
structure Latch where
  /-- A writer holds the latch. -/
  writerEntered : Bool := false
  /-- How many readers hold the latch. -/
  readerCount : ℕ := 0
  deriving DecidableEq, Repr

namespace Latch

/-- `MAX_READERS`. -/
def maxReaders : ℕ := 2^32 - 1

/-- `w_lock`. -/
def wLock (l : Latch) : Option Latch :=
  if l.writerEntered ∨ 0 < l.readerCount then none else some { l with writerEntered := true }

/-- `w_unlock`. -/
def wUnlock (l : Latch) : Latch := { l with writerEntered := false }

/-- `r_lock`. -/
def rLock (l : Latch) : Option Latch :=
  if l.writerEntered ∨ l.readerCount = maxReaders then none
  else some { l with readerCount := l.readerCount + 1 }

/-- `r_unlock`. -/
def rUnlock (l : Latch) : Latch := { l with readerCount := l.readerCount - 1 }

/-- Nobody holds the latch. -/
def free : Latch := {}

@[simp] theorem wLock_free : free.wLock = some { writerEntered := true } := rfl

@[simp] theorem wUnlock_wLocked : wUnlock { writerEntered := true } = free := rfl

@[simp] theorem rLock_free : free.rLock = some { readerCount := 1 } := by
  simp [rLock, free, maxReaders]

@[simp] theorem rUnlock_rLocked : rUnlock { readerCount := 1 } = free := rfl

theorem rUnlock_of_rLock {l l' : Latch} (h : l.rLock = some l') : l'.rUnlock = l := by
  unfold rLock at h
  split_ifs at h
  rw [← Option.some.inj h]
  rfl

theorem eq_of_wLock {l l' : Latch} (h : l.wLock = some l') : l = free ∧ l' = ⟨true, 0⟩ := by
  unfold wLock at h
  split_ifs at h with hc
  obtain ⟨w, r⟩ := l
  obtain ⟨hw, hr⟩ := not_or.mp hc
  obtain rfl : w = false := by simpa using hw
  obtain rfl : r = 0 := by simpa using hr
  exact ⟨rfl, (Option.some.inj h).symm⟩

theorem wUnlock_of_wLock {l l' : Latch} (h : l.wLock = some l') : l'.wUnlock = l := by
  obtain ⟨rfl, rfl⟩ := eq_of_wLock h
  rfl

end Latch

end Dawn
