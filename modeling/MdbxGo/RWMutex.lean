import Mathlib.Data.List.Count

/-! A lock for any number of readers or one writer. The holders are kept by their numbers, and a
holder may hold it for reading more than once; code that has such a lock only counts them. -/

/-- The lock: the readers that hold it, and the writer. -/
structure RWMutex where
  readers : List Nat := []
  writer : Option Nat := none
deriving DecidableEq, Repr

namespace RWMutex

variable {m m' : RWMutex} {i j : Nat}

/-- Blocks while there is a writer. That it also blocks while a writer waits only takes runs
away. -/
def rLock (m : RWMutex) (i : Nat) : Option RWMutex :=
  if m.writer.isNone then some { m with readers := i :: m.readers } else none

def rUnlock (m : RWMutex) (i : Nat) : RWMutex := { m with readers := m.readers.erase i }

/-- Blocks while there is any holder. -/
def lock (m : RWMutex) (i : Nat) : Option RWMutex :=
  if m.writer.isNone && m.readers.isEmpty then some { m with writer := some i } else none

def unlock (m : RWMutex) : RWMutex := { m with writer := none }

/-- How often `i` holds the lock. -/
def held (m : RWMutex) (i : Nat) : Nat := m.readers.count i + if m.writer = some i then 1 else 0

/-- A writer is alone. -/
def Exclusive (m : RWMutex) : Prop := m.writer ≠ none → m.readers = []

theorem rLock_eq_some : m.rLock i = some m' ↔
    m.writer = none ∧ m' = { m with readers := i :: m.readers } := by
  unfold rLock
  by_cases h : m.writer = none
  · simp [h, eq_comm]
  · simp [h]

theorem lock_eq_some : m.lock i = some m' ↔
    m.writer = none ∧ m.readers = [] ∧ m' = { m with writer := some i } := by
  unfold lock
  by_cases h : m.writer = none
  · by_cases hr : m.readers = []
    · simp [h, hr, eq_comm]
    · simp [h, hr]
  · simp [h]

theorem Exclusive.of_rLock (h : m.rLock i = some m') : m'.Exclusive := by
  obtain ⟨hw, rfl⟩ := rLock_eq_some.mp h
  exact fun hne => absurd hw hne

theorem Exclusive.of_lock (h : m.lock i = some m') : m'.Exclusive := by
  obtain ⟨-, hr, rfl⟩ := lock_eq_some.mp h
  exact fun _ => hr

theorem Exclusive.rUnlock (h : m.Exclusive) (i : Nat) : (m.rUnlock i).Exclusive := by
  intro hne
  simp [RWMutex.rUnlock, h hne]

theorem Exclusive.unlock : m.unlock.Exclusive := fun hne => absurd rfl hne

/-- A reader keeps writers out. -/
theorem Exclusive.reading (h : m.Exclusive) (hi : i ∈ m.readers) : m.writer = none := by
  by_contra hne
  rw [h hne] at hi
  cases hi

end RWMutex
