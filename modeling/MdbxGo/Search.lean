import Mathlib.Data.Nat.Init
import Mathlib.Tactic.ByContra

/-! Binary searches for the boundary of a predicate: the place in a range where it stops holding. -/

namespace Search

/-- `r` is where `p` stops holding between `lo` and `hi`. -/
structure Bound (p : Nat → Bool) (lo hi r : Nat) : Prop where
  lower : lo ≤ r
  upper : r ≤ hi
  before : ∀ i, lo ≤ i → i < r → p i = true
  after : ∀ i, r ≤ i → i < hi → p i = false

section Bound

variable {p : Nat → Bool} {lo hi r r' m : Nat}

theorem Bound.unique (h : Bound p lo hi r) (h' : Bound p lo hi r') : r = r' := by
  rcases Nat.lt_trichotomy r r' with hlt | heq | hlt
  · have hp := h'.before r h.lower hlt
    rw [h.after r (Nat.le_refl r) (by have := h'.upper; omega)] at hp
    exact absurd hp Bool.false_ne_true
  · exact heq
  · have hp := h.before r' h'.lower hlt
    rw [h'.after r' (Nat.le_refl r') (by have := h.upper; omega)] at hp
    exact absurd hp Bool.false_ne_true

/-- Where `p` holds, the boundary is to the right. -/
theorem Bound.lt_of_true (h : Bound p lo hi r) (hhi : m < hi) (hm : p m = true) : m < r := by
  by_contra hle
  rw [h.after m (by omega) hhi] at hm
  exact Bool.false_ne_true hm

/-- Where `p` does not hold, the boundary is not to the right. -/
theorem Bound.le_of_false (h : Bound p lo hi r) (hlo : lo ≤ m) (hm : p m = false) : r ≤ m := by
  by_contra hlt
  rw [h.before m hlo (by omega)] at hm
  exact absurd hm.symm Bool.false_ne_true

/-- A predicate that goes on holding to the left has a boundary in every range. -/
theorem Bound.exists (hle : lo ≤ hi)
    (hp : ∀ i j, lo ≤ i → i ≤ j → j < hi → p j = true → p i = true) :
    ∃ r, Bound p lo hi r := by
  induction hi, hle using Nat.le_induction with
  | base => exact ⟨lo, Nat.le_refl _, Nat.le_refl _, fun i h h' => by omega, fun i h h' => by omega⟩
  | succ hi hle ih =>
    obtain ⟨r, hr⟩ := ih fun i j hi' hij hj => hp i j hi' hij (by omega)
    have hupper := hr.upper
    by_cases hlast : p hi = true
    · refine ⟨hi + 1, by omega, Nat.le_refl _, fun i hi' hlt => ?_, fun i h h' => by omega⟩
      exact hp i hi hi' (by omega) (by omega) hlast
    · refine ⟨r, hr.lower, by omega, hr.before, fun i hi' hlt => ?_⟩
      by_cases heq : i = hi
      · rw [heq]
        exact Bool.eq_false_iff.mpr hlast
      · exact hr.after i hi' (by omega)

end Bound

/-! ### Halving -/

/-- Halving without a branch: the middle stays in the range that is left. -/
def halve (p : Nat → Bool) (it length : Nat) : Nat × Nat :=
  let middle := it + length / 2
  let length := (length + 1) / 2
  (if p middle then middle else it, length)

/-- Halving with a branch: the range that is left begins after the middle. -/
def halveBranch (p : Nat → Bool) (it length : Nat) : Nat × Nat :=
  let middle := it + length / 2
  let length := (length + 1) / 2
  if p middle then (middle + 1, length - 1) else (it, length)

/-- Steps while more than two places are left. -/
def shorten (step : Nat → Nat → Nat × Nat) : Nat → Nat → Nat → Nat × Nat
  | 0, it, length => (it, length)
  | fuel + 1, it, length =>
    if 2 < length then
      let s := step it length
      shorten step fuel s.1 s.2
    else (it, length)

/-- What is done about the last two places. -/
def complete (p : Nat → Bool) (it length : Nat) : Nat :=
  let it := if 1 < length && p it then it + 1 else it
  if 0 < length && p it then it + 1 else it

/-- The search without branches, which halves before it looks at the length. -/
def bsearchCmov (p : Nat → Bool) (it length : Nat) : Nat :=
  let s := halve p it length
  let s := shorten (halve p) length s.1 s.2
  complete p s.1 s.2

/-- The search with a branch. -/
def bsearchBranch (p : Nat → Bool) (it length : Nat) : Nat :=
  let s := shorten (halveBranch p) length it length
  complete p s.1 s.2

section Halving

variable {p : Nat → Bool} {lo hi r it length : Nat}

/-- The places among which the boundary is. -/
structure Among (lo hi r : Nat) (s : Nat × Nat) : Prop where
  lower : lo ≤ s.1
  upper : s.1 + s.2 ≤ hi
  least : s.1 ≤ r
  most : r ≤ s.1 + s.2

theorem halve_among (h : Bound p lo hi r) (hs : Among lo hi r (it, length)) (hpos : 0 < length) :
    Among lo hi r (halve p it length) := by
  obtain ⟨hlower, hupper, hleast, hmost⟩ := hs
  simp only at hlower hupper hleast hmost
  by_cases hm : p (it + length / 2) = true
  · have hlt := h.lt_of_true (by omega) hm
    simp only [halve, hm, if_true]
    constructor <;> simp only <;> omega
  · have hle := h.le_of_false (by omega) (Bool.eq_false_iff.mpr hm)
    simp only [halve, if_neg hm]
    constructor <;> simp only <;> omega

theorem halveBranch_among (h : Bound p lo hi r) (hs : Among lo hi r (it, length))
    (hpos : 0 < length) :
    Among lo hi r (halveBranch p it length) := by
  obtain ⟨hlower, hupper, hleast, hmost⟩ := hs
  simp only at hlower hupper hleast hmost
  by_cases hm : p (it + length / 2) = true
  · have hlt := h.lt_of_true (by omega) hm
    simp only [halveBranch, hm, if_true]
    constructor <;> simp only <;> omega
  · have hle := h.le_of_false (by omega) (Bool.eq_false_iff.mpr hm)
    simp only [halveBranch, if_neg hm]
    constructor <;> simp only <;> omega

/-- Steps that keep the boundary among the places left and leave fewer of them end with at most
two. -/
theorem shorten_among {step : Nat → Nat → Nat × Nat} {n : Nat}
    (hstep : ∀ it length, 2 < length → Among lo hi r (it, length) → Among lo hi r (step it length))
    (hless : ∀ it length, 2 < length → (step it length).2 < length)
    (hs : Among lo hi r (it, length)) (hn : length ≤ n) :
    Among lo hi r (shorten step n it length) ∧ (shorten step n it length).2 ≤ 2 := by
  induction n generalizing it length with
  | zero => exact ⟨hs, by simp only [shorten]; omega⟩
  | succ n ih =>
    rw [shorten]
    by_cases hlong : 2 < length
    · rw [if_pos hlong]
      have hlt := hless it length hlong
      exact ih (hstep it length hlong hs) (by omega)
    · rw [if_neg hlong]
      exact ⟨hs, by simp only; omega⟩

theorem complete_eq (h : Bound p lo hi r) (hs : Among lo hi r (it, length)) (htwo : length ≤ 2) :
    complete p it length = r := by
  obtain ⟨hlower, hupper, hleast, hmost⟩ := hs
  simp only at hlower hupper hleast hmost
  -- A place below the boundary is one where `p` holds, and the boundary is one where it does not.
  have hbelow (i : Nat) (hi : it ≤ i) (hlt : i < r) : p i = true := h.before i (by omega) hlt
  have habove (hlt : r < hi) : p r = false := h.after r (Nat.le_refl r) hlt
  simp only [complete, Bool.and_eq_true, decide_eq_true_eq]
  have hcases : r = it ∨ r = it + 1 ∨ r = it + 2 := by omega
  rcases hcases with heq | heq | heq
  · by_cases hzero : length = 0
    · simp [hzero, heq]
    · have hp := habove (by omega)
      rw [heq] at hp
      simp [hp, heq]
  · have hp := hbelow it (Nat.le_refl it) (by omega)
    by_cases hone : length = 1
    · simp [hone, hp, heq]
    · have hp' := habove (by omega)
      rw [heq] at hp'
      have htwo : length = 2 := by omega
      simp [htwo, hp, hp', heq]
  · have hp := hbelow it (Nat.le_refl it) (by omega)
    have hp' := hbelow (it + 1) (by omega) (by omega)
    have htwo : length = 2 := by omega
    simp [htwo, hp, hp', heq]

/-- Both searches find the boundary. -/
theorem bsearchCmov_eq (h : Bound p it (it + length) r) : bsearchCmov p it length = r := by
  have hstart : Among it (it + length) r (it, length) :=
    ⟨Nat.le_refl _, Nat.le_refl _, h.lower, h.upper⟩
  have hfirst : Among it (it + length) r (halve p it length) := by
    by_cases hpos : 0 < length
    · exact halve_among h hstart hpos
    · have hzero : length = 0 := by omega
      subst hzero
      simpa [halve] using hstart
  have hle : (halve p it length).2 ≤ length ∨ length = 0 := by
    simp only [halve]
    omega
  have hfuel : (halve p it length).2 ≤ length := by
    rcases hle with hle | hzero
    · exact hle
    · simp [halve, hzero]
  obtain ⟨hamong, htwo⟩ := shorten_among
    (fun it length hlong hs => halve_among h hs (by omega))
    (fun it length hlong => by simp only [halve]; omega) hfirst hfuel
  exact complete_eq h hamong htwo

theorem bsearchBranch_eq (h : Bound p it (it + length) r) : bsearchBranch p it length = r := by
  have hstart : Among it (it + length) r (it, length) :=
    ⟨Nat.le_refl _, Nat.le_refl _, h.lower, h.upper⟩
  obtain ⟨hamong, htwo⟩ := shorten_among
    (fun it length hlong hs => halveBranch_among h hs (by omega))
    (fun it length hlong => by simp only [halveBranch]; split <;> simp only <;> omega) hstart
    (Nat.le_refl length)
  exact complete_eq h hamong htwo

end Halving

end Search
