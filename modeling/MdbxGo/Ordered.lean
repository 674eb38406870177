import Mathlib.Algebra.GroupWithZero.Nat
import Mathlib.Order.Fin.Basic

/-! Choices that a program makes by comparing values of a linear order in pairs. -/

namespace Ordered

variable {κ : Type} [LinearOrder κ] (k : Fin 3 → κ)

/-- There are places. -/
instance neZeroThree : NeZero 3 := ⟨Nat.succ_ne_zero 2⟩

/-- The comparison that a choice asks for. -/
def above (i j : Fin 3) : Bool := decide (k j < k i)

/-- The place of the greatest of three, by the comparisons of the pairs. -/
def greatest3 (g01 g02 g12 : Bool) : Fin 3 :=
  if g01 then if g02 then 0 else 2 else if g12 then 1 else 2

/-- The place of the lesser of the two that are not at `p`. -/
def lesser3 (p : Fin 3) (g01 g02 g12 : Bool) : Fin 3 :=
  if p = 0 then if g12 then 2 else 1
  else if p = 1 then if g02 then 2 else 0
  else if g01 then 1 else 0

/-- The place that `greatest3` finds for the values `k`. -/
abbrev top : Fin 3 := greatest3 (above k 0 1) (above k 0 2) (above k 1 2)

/-- The place that `lesser3` finds for the values `k`. -/
abbrev low (p : Fin 3) : Fin 3 := lesser3 p (above k 0 1) (above k 0 2) (above k 1 2)

theorem forall_fin3 {P : Fin 3 → Prop} : (∀ i, P i) ↔ P 0 ∧ P 1 ∧ P 2 := by
  constructor
  · intro h
    exact ⟨h 0, h 1, h 2⟩
  · rintro ⟨h0, h1, h2⟩ i
    match i with
    | 0 => exact h0
    | 1 => exact h1
    | 2 => exact h2

/-- No value is above the one chosen. -/
theorem le_top (i : Fin 3) : k i ≤ k (top k) := by
  revert i
  rw [forall_fin3]
  simp only [top, greatest3, above, decide_eq_true_eq]
  split_ifs with h01 h02 h12
  · exact ⟨le_refl _, h01.le, h02.le⟩
  · exact ⟨not_lt.mp h02, h01.le.trans (not_lt.mp h02), le_refl _⟩
  · exact ⟨not_lt.mp h01, le_refl _, h12.le⟩
  · exact ⟨(not_lt.mp h01).trans (not_lt.mp h12), not_lt.mp h12, le_refl _⟩

/-- Of equal values the last one is chosen. -/
theorem le_top_of_eq (i : Fin 3) (h : k i = k (top k)) : i ≤ top k := by
  revert i
  rw [forall_fin3]
  simp only [top, greatest3, above, decide_eq_true_eq]
  split_ifs with h01 h02 h12
  · exact ⟨fun _ => le_refl _, fun h => absurd h h01.ne, fun h => absurd h h02.ne⟩
  · exact ⟨fun _ => by decide, fun _ => by decide, fun _ => by decide⟩
  · exact ⟨fun _ => by decide, fun _ => by decide, fun h => absurd h h12.ne⟩
  · exact ⟨fun _ => by decide, fun _ => by decide, fun _ => by decide⟩

theorem low_ne (p : Fin 3) : low k p ≠ p := by
  revert p
  rw [forall_fin3]
  simp only [low, lesser3]
  refine ⟨?_, ?_, ?_⟩ <;> split_ifs <;> simp_all

/-- Apart from `p`, no value is below the one chosen. -/
theorem low_le (p i : Fin 3) (h : i ≠ p) : k (low k p) ≤ k i := by
  revert i
  revert p
  simp only [forall_fin3, low, lesser3, above, decide_eq_true_eq]
  refine ⟨⟨?_, ?_, ?_⟩, ⟨?_, ?_, ?_⟩, ⟨?_, ?_, ?_⟩⟩ <;> intro h <;> split_ifs <;>
    simp_all [le_of_lt]

/-- Apart from `p`, of equal values the first one is chosen. -/
theorem low_le_of_eq (p i : Fin 3) (hp : i ≠ p) (h : k i = k (low k p)) : low k p ≤ i := by
  revert i
  revert p
  simp only [forall_fin3, low, lesser3, above, decide_eq_true_eq]
  refine ⟨⟨?_, ?_, ?_⟩, ⟨?_, ?_, ?_⟩, ⟨?_, ?_, ?_⟩⟩ <;> intro h <;> split_ifs <;>
    simp_all [ne_of_gt]

end Ordered
