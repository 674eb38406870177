import Mathlib.Order.Lattice
import Mathlib.Order.Defs.LinearOrder
import Mathlib.Data.Nat.Basic
import Mathlib.Data.Nat.Init
import Mathlib.Tactic.ByContra

/-! Runs of cells with falling contents. The run from `lo` to `hi` has the cells above `lo` up to
`hi`. -/

namespace Falling

variable {α : Type*}

/-- `x` is in a cell of the run. -/
def Holds (p : Nat → α) (lo hi : Nat) (x : α) : Prop := ∃ i, lo < i ∧ i ≤ hi ∧ p i = x

/-- The contents fall from cell to cell. -/
def Falls [LT α] (p : Nat → α) (lo hi : Nat) : Prop :=
  ∀ i j, lo < i → i < j → j ≤ hi → p j < p i

section Holds

variable {p q : Nat → α} {lo mid hi k : Nat} {x : α}

theorem Holds.cell {i : Nat} (hlo : lo < i) (hhi : i ≤ hi) : Holds p lo hi (p i) :=
  ⟨i, hlo, hhi, rfl⟩

theorem holds_empty (hle : hi ≤ lo) : ¬ Holds p lo hi x := by
  rintro ⟨i, hlo, hhi, _⟩
  omega

theorem holds_congr (h : ∀ i, lo < i → i ≤ hi → q i = p i) : Holds q lo hi x ↔ Holds p lo hi x := by
  constructor
  · rintro ⟨i, hlo, hhi, rfl⟩
    exact ⟨i, hlo, hhi, (h i hlo hhi).symm⟩
  · rintro ⟨i, hlo, hhi, rfl⟩
    exact ⟨i, hlo, hhi, h i hlo hhi⟩

theorem holds_append (hlo : lo ≤ mid) (hhi : mid ≤ hi) :
    Holds p lo hi x ↔ Holds p lo mid x ∨ Holds p mid hi x := by
  constructor
  · rintro ⟨i, hi', hi'', heq⟩
    by_cases hle : i ≤ mid
    · exact .inl ⟨i, hi', hle, heq⟩
    · exact .inr ⟨i, by omega, hi'', heq⟩
  · rintro (⟨i, hi', hi'', heq⟩ | ⟨i, hi', hi'', heq⟩)
    · exact ⟨i, hi', by omega, heq⟩
    · exact ⟨i, by omega, hi'', heq⟩

theorem holds_shift : Holds (fun i => p (i + k)) lo hi x ↔ Holds p (lo + k) (hi + k) x := by
  constructor
  · rintro ⟨i, hlo, hhi, heq⟩
    exact ⟨i + k, by omega, by omega, heq⟩
  · rintro ⟨i, hlo, hhi, heq⟩
    refine ⟨i - k, by omega, by omega, ?_⟩
    have hback : i - k + k = i := by omega
    simpa only [hback] using heq

/-- One cell more. -/
theorem holds_succ (hle : lo ≤ hi) : Holds p lo (hi + 1) x ↔ Holds p lo hi x ∨ p (hi + 1) = x := by
  rw [holds_append hle (Nat.le_succ hi)]
  constructor
  · rintro (h | ⟨i, hlo, hhi, heq⟩)
    · exact .inl h
    · have hlast : i = hi + 1 := by omega
      subst hlast
      exact .inr heq
  · rintro (h | heq)
    · exact .inl h
    · exact .inr ⟨hi + 1, by omega, Nat.le_refl _, heq⟩

end Holds

section Falls

variable [LinearOrder α] {p q : Nat → α} {lo lo' mid hi hi' k i j : Nat} {x y : α}

theorem Falls.mono (h : Falls p lo hi) (hlo : lo ≤ lo') (hhi : hi' ≤ hi) : Falls p lo' hi' := by
  intro i j hi hij hj
  exact h i j (by omega) hij (by omega)

theorem Falls.congr (h : Falls p lo hi) (heq : ∀ i, lo < i → i ≤ hi → q i = p i) :
    Falls q lo hi := by
  intro i j hi hij hj
  rw [heq i hi (by omega), heq j (by omega) hj]
  exact h i j hi hij hj

theorem falls_shift : Falls (fun i => p (i + k)) lo hi ↔ Falls p (lo + k) (hi + k) := by
  constructor
  · intro h i j hi hij hj
    have hi' : i - k + k = i := by omega
    have hj' : j - k + k = j := by omega
    have hlt := h (i - k) (j - k) (by omega) (by omega) (by omega)
    simpa only [hi', hj'] using hlt
  · intro h i j hi hij hj
    exact h (i + k) (j + k) (by omega) (by omega) (by omega)

/-- A run falls when each cell is below the one before it. -/
theorem falls_of_step (h : ∀ i, lo < i → i < hi → p (i + 1) < p i) : Falls p lo hi := by
  intro i j hi hij hj
  induction j, hij using Nat.le_induction with
  | base => exact h i hi (by omega)
  | succ j hij ih => exact lt_trans (h j (by omega) (by omega)) (ih (by omega))

/-- Two runs of which the second is below the first. -/
theorem Falls.append (h : Falls p lo mid) (h' : Falls p mid hi)
    (hcross : ∀ x y, Holds p lo mid x → Holds p mid hi y → y < x) : Falls p lo hi := by
  intro i j hi hij hj
  by_cases hle : j ≤ mid
  · exact h i j hi hij hle
  · by_cases hle' : i ≤ mid
    · exact hcross _ _ (Holds.cell hi hle') (Holds.cell (by omega) hj)
    · exact h' i j (by omega) hij hj

/-- One cell more, below all others. -/
theorem Falls.succ (h : Falls p lo hi) (hlast : ∀ x, Holds p lo hi x → p (hi + 1) < x) :
    Falls p lo (hi + 1) := by
  intro i j hi' hij hj
  by_cases hle : j ≤ hi
  · exact h i j hi' hij hle
  · have heq : j = hi + 1 := by omega
    subst heq
    exact hlast _ (Holds.cell hi' (by omega))

theorem Falls.cross (h : Falls p lo hi) (hx : Holds p lo mid x) (hy : Holds p mid hi y) :
    y < x := by
  obtain ⟨i, hlo, hmid, rfl⟩ := hx
  obtain ⟨j, hmid', hhi, rfl⟩ := hy
  exact h i j hlo (by omega) hhi

theorem Falls.le (h : Falls p lo hi) (hi' : lo < i) (hij : i ≤ j) (hj : j ≤ hi) : p j ≤ p i := by
  rcases Nat.eq_or_lt_of_le hij with heq | hlt
  · rw [heq]
  · exact le_of_lt (h i j hi' hlt hj)

theorem Falls.inj (h : Falls p lo hi) (hi' : lo < i) (hi'' : i ≤ hi) (hj : lo < j) (hj' : j ≤ hi)
    (heq : p i = p j) : i = j := by
  rcases Nat.lt_trichotomy i j with hlt | hsame | hlt
  · exact absurd heq.symm (ne_of_lt (h i j hi' hlt hj'))
  · exact hsame
  · exact absurd heq (ne_of_lt (h j i hj hlt hi''))

/-- What is below a cell is in a later one. -/
theorem Falls.lt_iff (h : Falls p lo hi) (hi' : lo < i) (hi'' : i ≤ hi) (hj : lo < j)
    (hj' : j ≤ hi) :
    p j < p i ↔ i < j := by
  constructor
  · intro hlt
    by_contra hle
    exact absurd hlt (not_lt_of_ge (h.le hj (by omega) hi''))
  · intro hlt
    exact h i j hi' hlt hj'

/-- A run that falls holds nothing twice. -/
theorem Falls.disjoint (h : Falls p lo hi) (hx : Holds p lo mid x) : ¬ Holds p mid hi x :=
  fun hy => lt_irrefl x (h.cross hx hy)

end Falls

end Falling
