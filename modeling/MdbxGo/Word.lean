import Mathlib.Algebra.Group.Int.Defs
import Mathlib.Algebra.Group.Nat.Defs

/-! The conversions of Go between `int64` and `uint64`, which keep the bits. -/

/-- A signed number as an unsigned one: a negative one wraps around. -/
theorem Int64.toNat_toUInt64_eq_emod (n : Int64) : (n.toUInt64.toNat : Int) = n.toInt % 2 ^ 64 := by
  have hint : n.toInt = (n.toUInt64.toNat : Int).bmod (2 ^ 64) := n.toBitVec.toInt_eq_toNat_bmod
  have hlt := n.toUInt64.toNat_lt
  have hmod := @Int.bmod_emod n.toUInt64.toNat (2 ^ 64)
  rw [← hint] at hmod
  omega

/-- A number that is not negative stays the same without a sign. -/
theorem Int64.toNat_toUInt64_of_nonneg {n : Int64} (h : 0 ≤ n.toInt) :
    (n.toUInt64.toNat : Int) = n.toInt := by
  have hmax := n.toInt_lt
  rw [n.toNat_toUInt64_eq_emod]
  omega

/-- An unsigned number below 2 ^ 63 stays the same with a sign. -/
theorem UInt64.toInt_toInt64_of_lt {n : UInt64} (h : n.toNat < 2 ^ 63) :
    n.toInt64.toInt = n.toNat := by
  have hint : n.toInt64.toInt = (n.toNat : Int).bmod (2 ^ 64) := n.toBitVec.toInt_eq_toNat_bmod
  rw [hint]
  exact Int.bmod_eq_of_le (by omega) (by omega)
