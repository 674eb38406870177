import Mathlib.Algebra.Group.Nat.Defs
import Mathlib.Data.Nat.Init
import Mathlib.Tactic.ByContra

/-! A search downwards by lanes: several places are looked at together, and the highest bit of the
mask of those that hit tells which of them is the topmost. -/

namespace Lanes

/-- The topmost of the `n` places from `top` down that hits. -/
def down (hit : Int → Bool) : Int → Nat → Option Int
  | _, 0 => none
  | top, n + 1 => if hit top then some top else down hit (top - 1) n

/-- The mask of `n` lanes of `bits` bits: the bits of lane `i` tell whether `base + i` hits. -/
def mask (hit : Int → Bool) (bits : Nat) (base : Int) : Nat → Nat
  | 0 => 0
  | n + 1 =>
    mask hit bits base n ||| if hit (base + n) then (2 ^ bits - 1) <<< (bits * n) else 0

variable {hit : Int → Bool} {top base : Int} {bits n k extra m : Nat}

/-! ### The plain search -/

theorem down_eq_none (h : ∀ i : Nat, i < n → hit (top - i) = false) : down hit top n = none := by
  induction n generalizing top with
  | zero => rfl
  | succ n ih =>
    have hfirst := h 0 (by omega)
    rw [Int.natCast_zero, Int.sub_zero] at hfirst
    rw [down, hfirst, if_neg Bool.false_ne_true]
    apply ih
    intro i hi
    have hnext := h (i + 1) (by omega)
    have hplace : top - ((i + 1 : Nat) : Int) = top - 1 - (i : Int) := by omega
    rwa [hplace] at hnext

theorem down_eq_some (hk : k < n) (hhit : hit (top - k) = true)
    (h : ∀ i : Nat, i < k → hit (top - i) = false) : down hit top n = some (top - k) := by
  induction n generalizing top k with
  | zero => omega
  | succ n ih =>
    rw [down]
    by_cases hzero : k = 0
    · subst hzero
      rw [Int.natCast_zero, Int.sub_zero] at hhit ⊢
      rw [if_pos hhit]
    · have hfirst := h 0 (by omega)
      rw [Int.natCast_zero, Int.sub_zero] at hfirst
      rw [hfirst, if_neg Bool.false_ne_true]
      have hplace : top - (k : Int) = top - 1 - ((k - 1 : Nat) : Int) := by omega
      rw [hplace] at hhit ⊢
      apply ih (by omega) hhit
      intro i hi
      have hnext := h (i + 1) (by omega)
      have hplace' : top - ((i + 1 : Nat) : Int) = top - 1 - (i : Int) := by omega
      rwa [hplace'] at hnext

/-- What is found lies where it was looked for, and it hits. -/
theorem down_sound {at' : Int} (h : down hit top n = some at') :
    hit at' = true ∧ top - n < at' ∧ at' ≤ top := by
  induction n generalizing top with
  | zero => cases h
  | succ n ih =>
    rw [down] at h
    by_cases hhit : hit top = true
    · rw [if_pos hhit] at h
      cases h
      exact ⟨hhit, by omega, Int.le_refl _⟩
    · rw [if_neg hhit] at h
      obtain ⟨hat, hlow, hhigh⟩ := ih h
      exact ⟨hat, by omega, by omega⟩

/-- Nothing is found only where nothing hits. -/
theorem down_complete (h : down hit top n = none) (hk : k < n) : hit (top - k) = false := by
  induction n generalizing top k with
  | zero => omega
  | succ n ih =>
    rw [down] at h
    by_cases hhit : hit top = true
    · rw [if_pos hhit] at h
      cases h
    · rw [if_neg hhit] at h
      by_cases hzero : k = 0
      · subst hzero
        rw [Int.natCast_zero, Int.sub_zero]
        exact Bool.eq_false_iff.mpr hhit
      · have hrest := ih h (k := k - 1) (by omega)
        have hplace : top - 1 - ((k - 1 : Nat) : Int) = top - (k : Int) := by omega
        rwa [hplace] at hrest

/-- Nothing above what is found hits. -/
theorem down_topmost {at' : Int} (h : down hit top n = some at') (hk : at' < top - k) :
    hit (top - k) = false := by
  induction n generalizing top k with
  | zero => cases h
  | succ n ih =>
    rw [down] at h
    by_cases hhit : hit top = true
    · rw [if_pos hhit] at h
      cases h
      omega
    · rw [if_neg hhit] at h
      by_cases hzero : k = 0
      · subst hzero
        rw [Int.natCast_zero, Int.sub_zero]
        exact Bool.eq_false_iff.mpr hhit
      · have hplace : top - 1 - ((k - 1 : Nat) : Int) = top - (k : Int) := by omega
        have hrest := ih h (k := k - 1) (by omega)
        rwa [hplace] at hrest

/-- A search goes on below where its first part ends. -/
theorem down_add (a b : Nat) :
    down hit top (a + b) = (down hit top a).or (down hit (top - a) b) := by
  induction a generalizing top with
  | zero => rw [Nat.zero_add, down, Option.none_or, Int.natCast_zero, Int.sub_zero]
  | succ a ih =>
    rw [Nat.succ_add, down, down]
    by_cases hhit : hit top = true
    · rw [if_pos hhit, if_pos hhit, Option.some_or]
    · rw [if_neg hhit, if_neg hhit, ih]
      have hplace : top - 1 - (a : Int) = top - ((a + 1 : Nat) : Int) := by omega
      rw [hplace]

/-! ### The mask of the lanes -/

theorem testBit_mask (hbits : 0 < bits) (j : Nat) :
    (mask hit bits base n).testBit j =
      (decide (j < bits * n) && hit (base + (j / bits : Nat))) := by
  induction n with
  | zero => simp [mask]
  | succ n ih =>
    rw [mask, Nat.testBit_or, ih]
    have hwidth : bits * (n + 1) = bits * n + bits := Nat.mul_succ bits n
    by_cases hlow : j < bits * n
    · -- A bit of an earlier lane.
      have hhigh : j < bits * (n + 1) := by omega
      have hnot : ¬ bits * n ≤ j := by omega
      by_cases hhit : hit (base + n) = true <;> simp [hlow, hhigh, hnot, hhit]
    · by_cases hlane : j < bits * (n + 1)
      · have hquot : j / bits = n := by
          apply Nat.div_eq_of_lt_le
          · rw [Nat.mul_comm]
            omega
          · rw [Nat.mul_comm]
            omega
        have hle : bits * n ≤ j := by omega
        have hoff : j - bits * n < bits := by omega
        by_cases hhit : hit (base + n) = true <;> simp [hlow, hlane, hquot, hle, hoff, hhit]
      · have hoff : ¬ j - bits * n < bits := by omega
        by_cases hhit : hit (base + n) = true <;> simp [hlow, hlane, hoff, hhit]

/-- `m` is the mask of the lanes from `extra` on. -/
def Shows (hit : Int → Bool) (bits : Nat) (base : Int) (extra n m : Nat) : Prop :=
  ∀ j, m.testBit j = (decide (bits * extra ≤ j ∧ j < bits * n) && hit (base + (j / bits : Nat)))

theorem shows_mask (hbits : 0 < bits) : Shows hit bits base 0 n (mask hit bits base n) := by
  intro j
  rw [testBit_mask hbits]
  simp

/-- The lanes below `extra` are cut off by a mask whose ones start at `extra`. -/
theorem shows_and (hbits : 0 < bits) {ones width : Nat} (hones : ones = 2 ^ (bits * n) - 1)
    (hwidth : bits * n ≤ width) :
    Shows hit bits base extra n
      ((ones <<< (bits * extra)) % 2 ^ width &&& mask hit bits base n) := by
  intro j
  rw [Nat.testBit_and, testBit_mask hbits, hones]
  by_cases hlane : j < bits * n
  · by_cases hle : bits * extra ≤ j
    · have hoff : j - bits * extra < bits * n := by omega
      have hin : j < width := by omega
      simp [hlane, hle, hoff, hin]
    · simp [hlane, hle]
  · simp [hlane]

/-- The highest bit of the mask is the last one of its lane. -/
theorem Shows.last (h : Shows hit bits base extra n m) (hbits : 0 < bits) (hm : m ≠ 0) :
    ∃ i, extra ≤ i ∧ i < n ∧ m.log2 = bits * i + (bits - 1) ∧ hit (base + i) = true ∧
      ∀ l, i < l → l < n → hit (base + l) = false := by
  have hbit := Nat.testBit_log2 hm
  rw [h, Bool.and_eq_true, decide_eq_true_eq] at hbit
  obtain ⟨⟨hextra, hlane⟩, hhit⟩ := hbit
  have hdivmod := Nat.div_add_mod m.log2 bits
  have hmod := Nat.mod_lt m.log2 hbits
  -- No bit above the highest one is set, so the lane above it, or the rest of its own, is not.
  have habove (j : Nat) (hj : m.log2 < j) : m.testBit j = false := by
    apply Nat.testBit_lt_two_pow
    apply Nat.lt_of_lt_of_le Nat.lt_log2_self
    exact Nat.pow_le_pow_right Nat.zero_lt_two hj
  refine ⟨m.log2 / bits, ?_, ?_, ?_, hhit, ?_⟩
  · rw [Nat.le_div_iff_mul_le hbits, Nat.mul_comm]
    exact hextra
  · rw [Nat.div_lt_iff_lt_mul hbits, Nat.mul_comm]
    exact hlane
  · by_contra hne
    have hnext := habove (m.log2 + 1) (by omega)
    have hquot : (m.log2 + 1) / bits = m.log2 / bits := by
      apply Nat.div_eq_of_lt_le
      · rw [Nat.mul_comm]
        omega
      · rw [Nat.succ_mul, Nat.mul_comm]
        omega
    have hin : m.log2 + 1 < bits * n := by
      have hlt : m.log2 / bits < n := by
        rw [Nat.div_lt_iff_lt_mul hbits, Nat.mul_comm]
        exact hlane
      have hmul := Nat.mul_le_mul_left bits (Nat.succ_le_of_lt hlt)
      rw [Nat.mul_succ] at hmul
      omega
    have hle : bits * extra ≤ m.log2 + 1 := by omega
    rw [h, hquot, hhit] at hnext
    simp [hin, hle] at hnext
  · intro l hl hn
    have hmul : bits * l < bits * n := (Nat.mul_lt_mul_left hbits).mpr hn
    have hfar : m.log2 < bits * l := by
      have hmul := Nat.mul_le_mul_left bits (Nat.succ_le_of_lt hl)
      rw [Nat.mul_succ] at hmul
      omega
    have hclear := habove (bits * l) hfar
    have hquot : bits * l / bits = l := Nat.mul_div_cancel_left l hbits
    rw [h, hquot] at hclear
    simpa [hmul, Nat.le_of_lt (Nat.lt_of_le_of_lt hextra hfar)] using hclear

/-- The place of the highest lane is where the plain search of these lanes ends. -/
theorem Shows.down_eq (h : Shows hit bits base extra n m) (hbits : 0 < bits) (hm : m ≠ 0) :
    down hit (base + n - 1) (n - extra) = some (base + (m.log2 / bits : Nat)) := by
  obtain ⟨i, hextra, hn, hlog, hhit, habove⟩ := h.last hbits hm
  have hquot : m.log2 / bits = i := by
    rw [hlog, Nat.mul_add_div hbits, Nat.div_eq_of_lt (by omega), Nat.add_zero]
  have hplace : base + (i : Int) = base + n - 1 - ((n - 1 - i : Nat) : Int) := by omega
  rw [hquot, hplace]
  apply down_eq_some (by omega)
  · rw [← hplace]
    exact hhit
  · intro l hl
    have hplace' : base + (n : Int) - 1 - (l : Int) = base + ((n - 1 - l : Nat) : Int) := by omega
    rw [hplace']
    exact habove (n - 1 - l) (by omega) (by omega)

theorem Shows.down_eq_none (h : Shows hit bits base extra n 0) (hbits : 0 < bits) :
    down hit (base + n - 1) (n - extra) = none := by
  apply Lanes.down_eq_none
  intro i hi
  have hplace : base + (n : Int) - 1 - (i : Int) = base + ((n - 1 - i : Nat) : Int) := by omega
  rw [hplace]
  have hclear := h (bits * (n - 1 - i))
  have hlow : bits * extra ≤ bits * (n - 1 - i) := Nat.mul_le_mul_left bits (by omega)
  have hhigh : bits * (n - 1 - i) < bits * n := (Nat.mul_lt_mul_left hbits).mpr (by omega)
  rw [Nat.mul_div_cancel_left _ hbits, Nat.zero_testBit] at hclear
  simpa [hlow, hhigh] using hclear.symm

end Lanes
